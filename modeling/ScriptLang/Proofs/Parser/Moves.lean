import ScriptLang.Proofs.Parser.Coupling

/-!
What parsing can do to the parser. Every routine, whether it succeeds or stops,
only ever moves on by a token or records an error at one of the two tokens that
it sees: `Parser.Moves p q` says that `q` comes from `p` in this way, and
`Parse.Orderly` says of a routine that this is all it does and that it records
something before it stops. So do all routines of the grammar, as the moves from a
parser are a coupling of what they lead to with itself.

What holds after every run is then proved of single moves. Errors are only added
at the end, the depth is what it was, and nothing that was read comes back.
-/

namespace ScriptLang

def SyntaxError.IsAt (e : SyntaxError) (p : Parser) : Prop :=
  (∀ l, e ≠ .lexical l) ∧ (e.span = p.current.span ∨ e.span = p.next.span)

namespace Parser

/-- The second parser comes from the first by moving on and recording errors. -/
inductive Moves (p : Parser) : Parser → Prop
  | refl : Moves p p
  | advance {q : Parser} : Moves p q → Moves p q.advance
  | record {q : Parser} {e : SyntaxError} : Moves p q → e.IsAt q → Moves p (q.record e)

namespace Moves

variable {p q r : Parser}

theorem trans (h : p.Moves q) (h' : q.Moves r) : p.Moves r := by
  induction h' with
  | refl => exact h
  | advance _ ih => exact ih.advance
  | record _ he ih => exact ih.record he

theorem errors_grow (h : p.Moves q) : p.errors <+: q.errors := by
  induction h with
  | refl => exact List.prefix_rfl
  | advance _ ih => exact ih.trans (List.prefix_append _ _)
  | record _ _ ih => exact ih.trans (List.prefix_append _ _)

theorem length_errors_lt_record (h : p.Moves q) (e : SyntaxError) :
    p.errors.length < (q.record e).errors.length := by
  have := h.errors_grow.length_le
  simp only [Parser.record, List.length_append, List.length_singleton]
  omega

theorem depth_eq (h : p.Moves q) : q.depth = p.depth := by
  induction h with
  | refl => rfl
  | advance _ ih => exact ih
  | record _ _ ih => exact ih

theorem size_eq (h : p.Moves q) : q.size = p.size := by
  induction h with
  | refl => rfl
  | advance _ ih => exact ih
  | record _ _ ih => exact ih

theorem left_le (h : p.Moves q) : q.left ≤ p.left := by
  induction h with
  | refl => exact Nat.le_refl _
  | advance _ ih => exact Nat.le_trans (left_advance_le _) ih
  | record _ _ ih => exact ih

/-- No move depends on the depth. -/
theorem exists_deeper (h : p.deeper.Moves q) : ∃ r, p.Moves r ∧ q = r.deeper := by
  induction h with
  | refl => exact ⟨p, .refl, rfl⟩
  | advance _ ih =>
      obtain ⟨r, hr, rfl⟩ := ih
      exact ⟨r.advance, hr.advance, rfl⟩
  | @record _ e _ he ih =>
      obtain ⟨r, hr, rfl⟩ := ih
      exact ⟨r.record e, hr.record he, rfl⟩

end Moves

/-- What a routine may lead to: it moves on, and if it stops it has recorded why. -/
def Leads {α : Type} (p : Parser) : EStateM.Result Stopped Parser α → Prop
  | .ok _ q => p.Moves q
  | .error _ q => p.Moves q ∧ p.errors.length < q.errors.length

theorem Leads.mono {α : Type} {p q : Parser} {result : EStateM.Result Stopped Parser α}
    (h : p.Moves q) (h' : q.Leads result) : p.Leads result := by
  cases result with
  | ok a r => exact h.trans h'
  | error e r =>
      have := h.errors_grow.length_le
      exact ⟨h.trans h'.1, by have := h'.2; omega⟩

end Parser

/-- The moves from a parser, and where a routine has stopped, the errors that it has added. -/
def Coupling.moves (p : Parser) : Coupling :=
  .diagonal p.Moves p.Moves p.Moves (fun q => p.Moves q ∧ p.errors.length < q.errors.length)
    id id And.left Parser.Moves.advance
    (fun he h => ⟨h.record ⟨he.ne_lexical _, .inl (he.span_eq _)⟩, h.length_errors_lt_record _⟩)
    (fun he h => ⟨h.record ⟨he.ne_lexical _, .inr (he.span_eq _)⟩, h.length_errors_lt_record _⟩)

theorem Parser.moves_synchronize (p : Parser) : p.Moves p.synchronize :=
  ((Coupling.moves p).synchronize ⟨rfl, .refl⟩).2

theorem Parser.moves_statements (n : Nat) (p : Parser) : p.Moves (p.statements n).2 :=
  ((Coupling.moves p).statements ⟨rfl, .refl⟩ n).2.2

namespace Parse

variable {α β : Type}

/-- A routine that only moves on and records errors at tokens that it sees, and
that does not stop without recording one. -/
abbrev Orderly (r : Parse α) : Prop := ∀ p, Coupled (Coupling.moves p) .moved r r

theorem Orderly.leads {r : Parse α} [Orderly r] (p : Parser) : p.Leads (r p) := by
  have h : (Coupling.moves p).Ends (r p) (r p) := ends_moved ⟨rfl, .refl⟩
  generalize r p = result at h
  cases h with
  | ok a hq => exact hq.2
  | stopped e hq => exact hq.2

theorem Orderly.moves {r : Parse α} [Orderly r] {p q : Parser} {a : α} (h : r p = .ok a q) :
    p.Moves q := by
  have hleads := Orderly.leads (r := r) p
  rwa [h] at hleads

instance (p : Parser) : Coupled (Coupling.moves p) .next current current := by
  refine ⟨?_⟩
  rintro q _ ⟨rfl, hq⟩
  exact .ok q.current ⟨rfl, hq⟩

instance (r : Parse α) [Orderly r] (p : Parser) :
    Coupled (Coupling.moves p).deeper .moved r r := by
  refine ⟨?_⟩
  rintro _ _ ⟨q, _, ⟨rfl, hq⟩, rfl, rfl⟩
  have h := Orderly.leads (r := r) q.deeper
  generalize r q.deeper = result at h
  cases result with
  | ok a m =>
      obtain ⟨m, hm, rfl⟩ := h.exists_deeper
      exact .ok a ⟨m, m, ⟨rfl, hq.trans hm⟩, rfl, rfl⟩
  | error e m =>
      obtain ⟨hmoves, hlt⟩ := h
      obtain ⟨m, hm, rfl⟩ := hmoves.exists_deeper
      have hgrow : p.errors.length < m.errors.length :=
        Nat.lt_of_le_of_lt hq.errors_grow.length_le hlt
      exact .stopped e ⟨m, m, ⟨rfl, hq.trans hm, hgrow⟩, rfl, rfl⟩

theorem leads_bind {r : Parse α} {f : α → Parse β} {p p' : Parser} (h : p.Leads (r p'))
    (h' : ∀ a (q : Parser), q.Leads (f a q)) : p.Leads ((r >>= f) p') := by
  rw [bind_run]
  cases hr : r p' with
  | ok a q =>
      rw [hr] at h
      exact Parser.Leads.mono h (h' a q)
  | error e q =>
      rw [hr] at h
      exact h

end Parse

end ScriptLang
