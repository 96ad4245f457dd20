import ScriptLang.Proofs.Parser.Outlook

/-!
Runs over terminals that are known beforehand. `Parse.Reads r p room need a rest`
says what the routine `r` does with the tree `a` in front of it, which takes `need`
levels where there are `room`: it reads the tree, records nothing and is left at
`rest` if the levels suffice, and if they do not it records that.

In the second case nothing is said about where the routine is left. Reading may go
on after a broken statement, but errors are only ever added, so what one part of a
run has recorded is there at its end (`Reads.bind`).
-/

namespace ScriptLang

/-- That the levels did not suffice is among the errors. -/
def TooDeep (errors : List SyntaxError) : Prop :=
  ∃ span, .tooDeeplyNested span ∈ errors

theorem TooDeep.mono {es es' : List SyntaxError} (h : TooDeep es) (hgrow : es <+: es') :
    TooDeep es' := by
  obtain ⟨span, hspan⟩ := h
  exact ⟨span, hgrow.subset hspan⟩

namespace Parse

variable {α β : Type}

/-- The parser that a run leaves behind, whether it stops or not. -/
def last (r : Parse α) (p : Parser) : Parser :=
  match r p with
  | .ok _ q => q
  | .error _ q => q

/-- Before the terminals `rest` there is the tree `a`, and the routine reads it if
there is room enough. -/
structure Reads (r : Parse α) (p : Parser) (room need : Nat) (a : α)
    (rest : List Terminal) : Prop where
  enough : need ≤ room → ∃ q, Clean r p a q ∧ q.After rest
  tooDeep : room < need → TooDeep (r.last p).errors

theorem moves_last (r : Parse α) [Orderly r] (p : Parser) : p.Moves (r.last p) := by
  have h := Orderly.leads (r := r) p
  unfold last
  cases hr : r p with
  | ok a q => rw [hr] at h; exact h
  | error e q => rw [hr] at h; exact h.1

theorem errors_last_bind (r : Parse α) (f : α → Parse β) [∀ a, Orderly (f a)] (p : Parser) :
    (r.last p).errors <+: ((r >>= f).last p).errors := by
  unfold last
  rw [bind_run]
  cases hr : r p with
  | ok a q => exact (moves_last (f a) q).errors_grow
  | error e q => exact List.prefix_rfl

theorem last_bind_of_run {r : Parse α} {f : α → Parse β} {p q : Parser} {a : α}
    (h : r p = .ok a q) : (r >>= f).last p = (f a).last q := by
  unfold last
  rw [bind_run, h]

namespace Reads

variable {r : Parse α} {f : α → Parse β} {p : Parser} {room need need' : Nat} {a : α} {b : β}
  {ts rest : List Terminal}

/-- One part after another: together they need what the greedier one needs. -/
theorem bind [∀ a, Orderly (f a)] (h : Reads r p room need a ts)
    (h' : ∀ q, q.After ts → Reads (f a) q room need' b rest) :
    Reads (r >>= f) p room (max need need') b rest := by
  refine ⟨fun hroom => ?_, fun hroom => ?_⟩
  · obtain ⟨m, ⟨hrun, herrors⟩, hm⟩ := h.enough (by omega)
    obtain ⟨q, ⟨hrun', herrors'⟩, hq⟩ := (h' m hm).enough (by omega)
    refine ⟨q, ⟨?_, by rw [herrors', herrors]⟩, hq⟩
    rw [bind_run, hrun]
    exact hrun'
  · -- The part that runs out of levels may be the first one or the second.
    by_cases hneed : room < need
    · exact (h.tooDeep hneed).mono (errors_last_bind r f p)
    · obtain ⟨m, ⟨hrun, -⟩, hm⟩ := h.enough (by omega)
      rw [last_bind_of_run hrun]
      exact (h' m hm).tooDeep (by omega)

theorem pure (hp : p.After rest) : Reads (pure a) p room 0 a rest :=
  ⟨fun _ => ⟨p, ⟨rfl, rfl⟩, hp⟩, fun h => absurd h (Nat.not_lt_zero _)⟩

theorem congr {r' : Parse α} {q : Parser} (h : Reads r q room need a rest)
    (hrun : r' p = r q) (herrors : q.errors = p.errors) : Reads r' p room need a rest := by
  refine ⟨fun hroom => ?_, fun hroom => ?_⟩
  · obtain ⟨m, hm, hafter⟩ := h.enough hroom
    exact ⟨m, ⟨hrun.trans hm.run, hm.errors_eq.trans herrors⟩, hafter⟩
  · have hlast : r'.last p = r.last q := by
      unfold last
      rw [hrun]
    rw [hlast]
    exact h.tooDeep hroom

theorem deeper (h : Reads r p room need a rest) :
    Reads r p (room + 1) (need + 1) a rest :=
  ⟨fun hroom => h.enough (by omega), fun hroom => h.tooDeep (by omega)⟩

theorem need_eq (h : Reads r p room need a rest) (hneed : need = need') :
    Reads r p room need' a rest :=
  hneed ▸ h

/-- What is left to do behind the last part takes no level. -/
theorem finish [∀ a, Orderly (f a)] (h : Reads r p room need a ts)
    (h' : ∀ q, q.After ts → Reads (f a) q room 0 b rest) :
    Reads (r >>= f) p room need b rest :=
  (h.bind h').need_eq (Nat.max_zero need)

/-! ### Single steps -/

theorem advance {f : Unit → Parse β} (hp : p.After ts)
    (h : p.advance.On ts → Reads (f ()) p.advance room need b rest) :
    Reads (Parse.advance >>= f) p room need b rest :=
  (h hp.advance).congr rfl hp.errors_advance

theorem current {f : Token → Parse β} (h : Reads (f p.current) p room need b rest) :
    Reads (Parse.current >>= f) p room need b rest :=
  h.congr rfl rfl

theorem nextKind {f : TokenKind → Parse β} (h : Reads (f p.next.kind) p room need b rest) :
    Reads (Parse.nextKind >>= f) p room need b rest :=
  h.congr rfl rfl

theorem next_is {kind : TokenKind} {r r' : Parse β} (hk : p.next.kind = kind)
    (h : Reads r p room need b rest) :
    Reads (Parse.nextKind >>= fun k => if k = kind then r else r') p room need b rest := by
  refine .nextKind ?_
  rw [if_pos hk]
  exact h

theorem next_is_not {kind : TokenKind} {r r' : Parse β} (hk : p.next.kind ≠ kind)
    (h : Reads r' p room need b rest) :
    Reads (Parse.nextKind >>= fun k => if k = kind then r else r') p room need b rest := by
  refine .nextKind ?_
  rw [if_neg hk]
  exact h

theorem turns {f : Nat → Parse β} (h : Reads (f (p.left + 2)) p room need b rest) :
    Reads (Parse.turns >>= f) p room need b rest :=
  h.congr rfl rfl

theorem expect {kind : TokenKind} {f : Unit → Parse β}
    (hp : p.After (.symbol kind :: ts))
    (h : p.advance.On (.symbol kind :: ts) → Reads (f ()) p.advance room need b rest) :
    Reads (Parse.expect kind >>= f) p room need b rest := by
  refine (h hp.advance).congr ?_ hp.errors_advance
  rw [expect_bind_run, if_pos]
  exact hp.next_kind

theorem identifier {x : String} {f : String → Parse β}
    (hp : p.After (.name x :: ts))
    (h : ∀ q, q.After ts → Reads (f x) q room need b rest) :
    Reads (Parse.identifier >>= f) p room need b rest := by
  obtain ⟨hk, hliteral⟩ := Token.literal_of_terminal_eq_name hp.next
  refine (h p.advance hp.advance.after).congr ?_ hp.errors_advance
  rw [identifier_bind_run, if_pos hk, hliteral]

theorem attempt (h : Reads r p room need a rest) :
    Reads (Parse.attempt r) p room need (some a) rest := by
  refine ⟨fun hroom => ?_, fun hroom => ?_⟩
  · obtain ⟨q, ⟨hrun, herrors⟩, hq⟩ := h.enough hroom
    refine ⟨q, ⟨?_, herrors⟩, hq⟩
    unfold Parse.attempt
    rw [hrun]
  · have hlast : (Parse.attempt r).last p = r.last p := by
      unfold last Parse.attempt
      cases r p <;> rfl
    rw [hlast]
    exact h.tooDeep hroom

theorem attempt_bind {f : Option α → Parse β} (h : Reads r p room need a ts)
    (hf : ∀ o, Orderly (f o))
    (h' : ∀ q, q.After ts → Reads (f (some a)) q room need' b rest) :
    Reads (Parse.attempt r >>= f) p room (max need need') b rest :=
  h.attempt.bind h'

/-- The count of the levels is no part of what is read. -/
theorem nested (h : Reads r { p with depth := p.depth + 1 } room need a rest) :
    Reads (Parse.nested r) p room need a rest := by
  refine ⟨fun hroom => ?_, fun hroom => ?_⟩
  · obtain ⟨q, ⟨hrun, herrors⟩, hq⟩ := h.enough hroom
    refine ⟨{ q with depth := q.depth - 1 }, ⟨?_, herrors⟩, hq.withDepth _⟩
    unfold Parse.nested
    rw [hrun]
  · have hlast : ((Parse.nested r).last p).errors =
        (r.last { p with depth := p.depth + 1 }).errors := by
      unfold last Parse.nested
      cases r { p with depth := p.depth + 1 } <;> rfl
    rw [hlast]
    exact h.tooDeep hroom

end Reads

end Parse

end ScriptLang
