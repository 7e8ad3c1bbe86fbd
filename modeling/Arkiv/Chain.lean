import Arkiv.Bytes

/-!
# What the chain hands to the Arkiv code

The `go-ethereum` values the housekeeping transaction writes and the event pipeline reads —
logs, receipts, transactions and blocks — restricted to the fields these read or write, and
the constants of the packages `arkiv/address` and `arkiv/logs`. Those two packages are not
part of the source, so their constants are passed explicitly, as `Arkiv.Constants`, and
every result holds for all values of them.

A Go call can also end in a runtime panic (an index out of range, a nil dereference), which
is neither a value nor an error: `Arkiv.Outcome` keeps the three apart.
-/

namespace Arkiv

/-- The constants of packages `arkiv/address` and `arkiv/logs`: the processor's address and
the topics of the creation and expiry logs. -/
structure Constants where
  arkivProcessorAddress : Address
  arkivEntityCreated : Hash
  arkivEntityExpired : Hash

/-- `types.Log`: the fields the Arkiv code sets or reads. -/
structure Log where
  address : Address
  topics : List Hash
  data : List UInt8
  blockNumber : UInt64
deriving DecidableEq, Repr

/-- `types.ReceiptStatusSuccessful`. -/
def receiptStatusSuccessful : UInt64 := 1

/-- `types.Receipt`: the status and the logs. -/
structure Receipt where
  status : UInt64
  logs : List Log
deriving DecidableEq, Repr

/-- `types.Transaction`: the recipient `To()`, the call data, and the chain id and signature
values, which only sender recovery reads. -/
structure Transaction where
  recipient : Option Address
  data : List UInt8
  signature : List UInt8
deriving DecidableEq, Repr

/-- `types.Block`: number, timestamp, hash and transactions. -/
structure Block where
  number : UInt64
  time : UInt64
  hash : Hash
  transactions : List Transaction
deriving DecidableEq, Repr

/-! ### How a Go call ends -/

/-- The end of a Go call: a value, an error, or a runtime panic. -/
inductive Outcome (α : Type)
  | ok (a : α)
  | error (msg : String)
  | panic (msg : String)
deriving DecidableEq, Repr

namespace Outcome

variable {α β : Type}

/-- Run `f` on the value; errors and panics propagate. -/
def bind : Outcome α → (α → Outcome β) → Outcome β
  | ok a, f => f a
  | error e, _ => error e
  | panic p, _ => panic p

instance : Monad Outcome where
  pure := ok
  bind := bind

@[simp] theorem pure_eq (a : α) : (pure a : Outcome α) = ok a := rfl

@[simp] theorem ok_bind (a : α) (f : α → Outcome β) : (ok a >>= f) = f a := rfl

@[simp] theorem error_bind (e : String) (f : α → Outcome β) : (error e >>= f) = error e := rfl

@[simp] theorem panic_bind (p : String) (f : α → Outcome β) : (panic p >>= f) = panic p := rfl

theorem bind_eq_ok {x : Outcome α} {f : α → Outcome β} {b : β} :
    (x >>= f) = ok b ↔ ∃ a, x = ok a ∧ f a = ok b := by
  cases x <;> simp

/-- A bind ends in no panic when neither of its parts does. -/
theorem bind_ne_panic {x : Outcome α} {f : α → Outcome β} (hx : ∀ p, x ≠ panic p)
    (hf : ∀ a p, f a ≠ panic p) (p : String) : (x >>= f) ≠ panic p := by
  cases x with
  | ok a => exact hf a p
  | error e => simp
  | panic q => exact absurd rfl (hx q)

/-- A bind ends in no error when neither of its parts does. -/
theorem bind_ne_error {x : Outcome α} {f : α → Outcome β} (hx : ∀ e, x ≠ error e)
    (hf : ∀ a e, f a ≠ error e) (e : String) : (x >>= f) ≠ error e := by
  cases x with
  | ok a => exact hf a e
  | error e' => exact absurd rfl (hx e')
  | panic q => simp

/-- Lift an `error`-returning call, prefixing its message as `fmt.Errorf("…: %w")` does. -/
def ofExcept (context : String) : Except String α → Outcome α
  | .ok a => ok a
  | .error e => error (context ++ e)

theorem ofExcept_eq_ok {context : String} {e : Except String α} {a : α} :
    ofExcept context e = ok a ↔ e = .ok a := by
  cases e <;> simp [ofExcept]

/-- `xs[i]`, which panics out of range with Go's message. -/
def index (xs : List α) (i : Nat) : Outcome α :=
  match xs.get? i with
  | some a => ok a
  | none => panic ("runtime error: index out of range [" ++ toString i ++ "] with length " ++
      toString xs.length)

theorem index_ne_error (xs : List α) (i : Nat) (e : String) : index xs i ≠ error e := by
  unfold index
  split <;> simp

end Outcome

end Arkiv
