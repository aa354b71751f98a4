import Mathlib.Logic.Basic

/-!
# Functions with early returns

A piece of a C function goes on with a value, returns from the function in the middle, or does
something that the language gives no meaning to. `Flow` is the monad of such pieces.

* `Flow`, `leaveIf`, `leaveOn`, `deref` — going on, a return under a condition, a return with an
  error, a pointer that is followed.
* `Flow.Ends N R F` — the piece goes on only as `N` says, the function returns only what satisfies
  `R`, and goes wrong only as `F` allows.
* `ends_bind`, `ends_leaveIf`, … — the rules, all of them equivalences.
-/

namespace CloudNfs

universe u v w

/-- How a piece of a function ends: `φ` are the faults, `ρ` what the function returns. -/
inductive Flow (φ : Type u) (ρ : Type v) (α : Type w) where
  /-- the function goes on -/
  | next (a : α)
  /-- the function returns -/
  | ret (r : ρ)
  /-- the behaviour is undefined -/
  | fault (f : φ)

namespace Flow

variable {φ : Type u} {ρ : Type v} {α β γ σ : Type w} {N N' : α → Prop} {R R' : ρ → Prop}
  {F F' : φ → Prop}

/-- One piece after another. -/
protected def bind (m : Flow φ ρ α) (k : α → Flow φ ρ β) : Flow φ ρ β :=
  match m with
  | .next a => k a
  | .ret r => .ret r
  | .fault f => .fault f

instance : Monad (Flow φ ρ) where
  pure := .next
  bind := Flow.bind

/-- `if(c) return r;` -/
def leaveIf (c : Prop) [Decidable c] (r : ρ) : Flow φ ρ PUnit := if c then .ret r else .next ⟨⟩

/-- Return when a call fails. -/
def leaveOn {ε : Type*} (e : Option ε) (r : ε → ρ) : Flow φ ρ PUnit :=
  match e with
  | some e => .ret (r e)
  | none => .next ⟨⟩

/-- Follow a pointer; `f` is the fault when it is `NULL`. -/
def deref (f : φ) (p : Option α) : Flow φ ρ α :=
  match p with
  | some a => .next a
  | none => .fault f

def stop (m : Flow φ ρ Empty) : Flow φ ρ α :=
  match m with
  | .next a => nomatch a
  | .ret r => .ret r
  | .fault f => .fault f

/-- The weakest precondition of a piece: it goes on only with what satisfies `N`, the function
returns only what satisfies `R`, and its faults satisfy `F`. -/
def Ends (m : Flow φ ρ α) (N : α → Prop) (R : ρ → Prop) (F : φ → Prop) : Prop :=
  match m with
  | .next a => N a
  | .ret r => R r
  | .fault f => F f

/-! ## The rules -/

@[simp] theorem next_bind (a : α) (k : α → Flow φ ρ β) : Flow.next a >>= k = k a := rfl

@[simp] theorem ret_bind (r : ρ) (k : α → Flow φ ρ β) : Flow.ret r >>= k = .ret r := rfl

@[simp] theorem fault_bind (f : φ) (k : α → Flow φ ρ β) : Flow.fault f >>= k = .fault f := rfl

@[simp] theorem pure_eq (a : α) : (pure a : Flow φ ρ α) = .next a := rfl

@[simp] theorem deref_some (f : φ) (a : α) : (deref f (some a) : Flow φ ρ α) = .next a := rfl

theorem bind_assoc (m : Flow φ ρ α) (k : α → Flow φ ρ β) (k' : β → Flow φ ρ γ) :
    m >>= k >>= k' = m >>= fun a => k a >>= k' := by
  cases m <;> rfl

@[simp] theorem ends_next (a : α) : (Flow.next a : Flow φ ρ α).Ends N R F ↔ N a := Iff.rfl

@[simp] theorem ends_ret (r : ρ) : (Flow.ret r : Flow φ ρ α).Ends N R F ↔ R r := Iff.rfl

@[simp] theorem ends_fault (f : φ) : (Flow.fault f : Flow φ ρ α).Ends N R F ↔ F f := Iff.rfl

/-- **One piece after another**: the first has to lead to where the second ends well. -/
@[simp] theorem ends_bind {m : Flow φ ρ α} {k : α → Flow φ ρ β} {N : β → Prop} :
    (m >>= k).Ends N R F ↔ m.Ends (fun a => (k a).Ends N R F) R F := by
  cases m <;> rfl

theorem Ends.mono {m : Flow φ ρ α} (h : m.Ends N R F) (hN : ∀ a, N a → N' a)
    (hR : ∀ r, R r → R' r) (hF : ∀ f, F f → F' f) : m.Ends N' R' F' := by
  cases m with
  | next a => exact hN a h
  | ret r => exact hR r h
  | fault f => exact hF f h

/-- A return under a condition. -/
@[simp] theorem ends_leaveIf {c : Prop} [Decidable c] {r : ρ} {N : PUnit → Prop} :
    (leaveIf c r : Flow φ ρ PUnit).Ends N R F ↔ (c → R r) ∧ (¬ c → N ⟨⟩) := by
  by_cases hc : c
  · simp [leaveIf, hc]
  · simp [leaveIf, hc]

/-- A return with an error. -/
@[simp] theorem ends_leaveOn {ε : Type*} {e : Option ε} {r : ε → ρ} {N : PUnit → Prop} :
    (leaveOn e r : Flow φ ρ PUnit).Ends N R F ↔
      (∀ err, e = some err → R (r err)) ∧ (e = none → N ⟨⟩) := by
  cases e with
  | none => simp [leaveOn]
  | some err => simp [leaveOn]

/-- A pointer is followed. -/
@[simp] theorem ends_deref {f : φ} {p : Option α} :
    (deref f p : Flow φ ρ α).Ends N R F ↔ (p = none → F f) ∧ ∀ a, p = some a → N a := by
  cases p with
  | none => simp [deref]
  | some a => simp [deref]

/-- A piece that never goes on. -/
@[simp] theorem ends_stop {m : Flow φ ρ Empty} :
    (m.stop : Flow φ ρ α).Ends N R F ↔ m.Ends (fun _ => True) R F := by
  cases m with
  | next a => nomatch a
  | ret r => exact Iff.rfl
  | fault f => exact Iff.rfl

theorem ends_foldlM {visit : σ → β → Flow φ ρ σ} {l : List β} {I : σ → Prop}
    (hvisit : ∀ x, I x → ∀ b ∈ l, (visit x b).Ends I R F) {x : σ} (hx : I x) :
    (l.foldlM visit x).Ends I R F := by
  induction l generalizing x with
  | nil => exact hx
  | cons b l ih =>
    rw [List.foldlM_cons, ends_bind]
    refine (hvisit x hx b (.head _)).mono (fun y hy => ih ?_ hy) (fun _ => id) fun _ => id
    exact fun z hz c hc => hvisit z hz c (.tail b hc)

theorem exists_ret_iff {m : Flow φ ρ Empty} :
    (∃ r, m = .ret r) ↔ m.Ends (fun _ => True) (fun _ => True) fun _ => False := by
  cases m with
  | next a => nomatch a
  | ret r => exact iff_of_true ⟨r, rfl⟩ trivial
  | fault f => exact iff_of_false nofun id

theorem ends_iff_forall_ret {m : Flow φ ρ Empty} :
    (m.Ends (fun _ => True) R fun _ => True) ↔ ∀ r, m = .ret r → R r := by
  cases m with
  | next a => nomatch a
  | ret r => simp
  | fault f => exact iff_of_true trivial nofun

end Flow

end CloudNfs
