import ScriptLang.Proofs.Grammar.Phrase
import ScriptLang.Proofs.Parser.LexicalErrors

/-!
What the parser has in front of it. `p.On ts` says that the terminals from the
current token to the end of the text are `ts`, and `p.After ts` says that of the
tokens behind the current one; both say that no lexical error is still to come. A
routine starts on the terminals that it is going to read, and when it has read
them it is left after them, standing on the last one. To advance is to go from
after some terminals to on them, and records nothing.

`Parse.Clean r p a q` says that the routine `r` yields `a` and records nothing on
the way. Errors are only ever added, so each part of a clean run is clean
(`Clean.bind_inv`).
-/

namespace ScriptLang

/-- The first of some terminals, or the end of the input. -/
def Terminal.first (ts : List Terminal) : Terminal := ts.headD (.symbol .endOfInput)

@[simp] theorem Terminal.first_nil : first [] = .symbol .endOfInput := rfl

@[simp] theorem Terminal.first_cons (t : Terminal) (ts : List Terminal) :
    first (t :: ts) = t := rfl

/-- A kind of token that comes without a text of its own. -/
def TokenKind.isSymbol : TokenKind → Bool
  | .identifier | .int | .string | .endOfInput => false
  | _ => true

theorem TokenKind.ne_endOfInput_of_isSymbol {kind : TokenKind} (h : kind.isSymbol = true) :
    kind ≠ .endOfInput := by
  rintro rfl
  cases h

theorem Token.terminal_of_isSymbol {t : Token} (h : t.kind.isSymbol = true) :
    t.terminal = .symbol t.kind := by
  unfold Token.terminal
  split
  · rename_i hk
    rw [hk] at h
    cases h
  · rename_i hk
    rw [hk] at h
    cases h
  · rename_i hk
    rw [hk] at h
    cases h
  · rfl

theorem Token.terminal_eq_name {t : Token} (h : t.kind = .identifier) :
    t.terminal = .name t.literal := by
  simp [Token.terminal, h]

theorem Token.terminal_eq_int {t : Token} (h : t.kind = .int) :
    t.terminal = .int t.literal := by
  simp [Token.terminal, h]

theorem Token.terminal_eq_str {t : Token} (h : t.kind = .string) :
    t.terminal = .str t.literal := by
  simp [Token.terminal, h]

theorem Token.literal_of_terminal_eq_name {t : Token} {x : String}
    (h : t.terminal = .name x) : t.kind = .identifier ∧ t.literal = x := by
  unfold Token.terminal at h
  split at h <;> simp_all

theorem Token.literal_of_terminal_eq_int {t : Token} {digits : String}
    (h : t.terminal = .int digits) : t.kind = .int ∧ t.literal = digits := by
  unfold Token.terminal at h
  split at h <;> simp_all

theorem Token.literal_of_terminal_eq_str {t : Token} {raw : String}
    (h : t.terminal = .str raw) : t.kind = .string ∧ t.literal = raw := by
  unfold Token.terminal at h
  split at h <;> simp_all

namespace Parser

/-- The terminals behind the current token; none of them is the end of the input. -/
structure After (p : Parser) (ts : List Terminal) : Prop where
  present : ∀ t ∈ ts, t.kind ≠ .endOfInput
  next : p.next.terminal = Terminal.first ts
  ahead : p.ahead.map Item.terminal? = ts.tail.map some

/-- The terminals from the current token on; none of them is the end of the input. -/
structure On (p : Parser) (ts : List Terminal) : Prop where
  present : ∀ t ∈ ts, t.kind ≠ .endOfInput
  current : p.current.terminal = Terminal.first ts
  after : p.After ts.tail

variable {p q : Parser} {t : Terminal} {ts : List Terminal}

theorem After.next_kind (h : p.After ts) : p.next.kind = (Terminal.first ts).kind := by
  rw [← h.next, Token.kind_terminal]

theorem On.current_kind (h : p.On ts) : p.current.kind = (Terminal.first ts).kind := by
  rw [← h.current, Token.kind_terminal]

theorem After.exists_cons (h : p.After ts) (hk : p.next.kind ≠ .endOfInput) :
    ∃ us, ts = p.next.terminal :: us := by
  cases ts with
  | nil => exact absurd h.next_kind hk
  | cons t us => exact ⟨us, by rw [h.next]; rfl⟩

theorem On.exists_cons (h : p.On ts) (hk : p.current.kind ≠ .endOfInput) :
    ∃ us, ts = p.current.terminal :: us := by
  cases ts with
  | nil => exact absurd h.current_kind hk
  | cons t us => exact ⟨us, by rw [h.current]; rfl⟩

theorem After.eq_cons {kind : TokenKind} (h : p.After ts) (hk : p.next.kind = kind)
    (hkind : kind.isSymbol = true) : ∃ us, ts = .symbol kind :: us := by
  subst hk
  rw [← Token.terminal_of_isSymbol hkind]
  exact h.exists_cons (TokenKind.ne_endOfInput_of_isSymbol hkind)

theorem On.eq_cons {kind : TokenKind} (h : p.On ts) (hk : p.current.kind = kind)
    (hkind : kind.isSymbol = true) : ∃ us, ts = .symbol kind :: us := by
  subst hk
  rw [← Token.terminal_of_isSymbol hkind]
  exact h.exists_cons (TokenKind.ne_endOfInput_of_isSymbol hkind)

/-- What is read next is the first terminal, and no error is passed on the way. -/
theorem readToken_of_terminals {items : List Item} {ts : List Terminal}
    (h : items.map Item.terminal? = ts.map some) (size : Nat) :
    (readToken size items).passed = [] ∧
      (readToken size items).token.terminal = Terminal.first ts ∧
      (readToken size items).rest.map Item.terminal? = ts.tail.map some := by
  cases items with
  | nil =>
      obtain rfl : ts = [] := List.map_eq_nil_iff.mp h.symm
      exact ⟨rfl, rfl, rfl⟩
  | cons item items =>
      cases ts with
      | nil => cases h
      | cons u us =>
          obtain ⟨hitem, hrest⟩ := List.cons.inj h
          cases item with
          | token tok => exact ⟨rfl, Option.some.inj hitem, hrest⟩
          | error e => cases hitem

theorem After.advance (h : p.After ts) : p.advance.On ts := by
  obtain ⟨-, hnext, hahead⟩ := readToken_of_terminals h.ahead p.size
  exact ⟨h.present, h.next, fun t ht => h.present t (List.mem_of_mem_tail ht), hnext, hahead⟩

theorem After.errors_advance (h : p.After ts) : p.advance.errors = p.errors := by
  show p.errors ++ (readToken p.size p.ahead).passed = p.errors
  rw [(readToken_of_terminals h.ahead p.size).1, List.append_nil]

theorem After.length_eq (h : p.After ts) : ts.length = p.left := by
  have hlength := congrArg List.length h.ahead
  simp only [List.length_map, List.length_tail] at hlength
  cases ts with
  | nil =>
      have hnext : p.next.weight = 0 := if_pos (by rw [h.next_kind]; rfl)
      simp_all [Parser.left]
  | cons t ts =>
      have hkind : p.next.kind ≠ .endOfInput := by
        rw [h.next_kind]
        exact h.present t List.mem_cons_self
      have hnext : p.next.weight = 1 := if_neg hkind
      simp_all [Parser.left]

theorem After.withDepth (h : p.After ts) (d : Nat) : After { p with depth := d } ts :=
  ⟨h.present, h.next, h.ahead⟩

theorem On.withDepth (h : p.On ts) (d : Nat) : On { p with depth := d } ts :=
  ⟨h.present, h.current, h.after.withDepth d⟩

theorem After.length_lt (h : p.After ts) : ts.length < p.left + 2 := by
  have := h.length_eq
  omega

theorem On.length_lt (h : p.On ts) : ts.length < p.left + 2 := by
  have := h.after.length_eq
  rw [List.length_tail] at this
  omega

/-! ### The beginning of a text -/

theorem map_terminal? {items : List Item} (h : ∀ e, .error e ∉ items) :
    items.map Item.terminal? = (items.filterMap Item.terminal?).map some := by
  induction items with
  | nil => rfl
  | cons item items ih =>
      have hrest : ∀ e, .error e ∉ items := fun e he => h e (List.mem_cons_of_mem _ he)
      cases item with
      | token t =>
          rw [List.map_cons, ih hrest]
          rfl
      | error e => exact absurd List.mem_cons_self (h e)

theorem kind_ne_of_mem_terminals {source : String} {t : Terminal} (h : t ∈ terminals source) :
    t.kind ≠ .endOfInput := by
  obtain ⟨item, hitem, ht⟩ := List.mem_filterMap.mp h
  cases item with
  | token tok =>
      obtain rfl : tok.terminal = t := Option.some.inj ht
      rw [Token.kind_terminal]
      exact (scanned_of_mem_scan hitem).kind_ne
  | error e => cases ht

theorem on_ofSource {source : String} (h : ∀ e, .error e ∉ scan source) :
    (ofSource source).On (terminals source) ∧ (ofSource source).errors = [] := by
  let start : Parser :=
    ⟨endOf source, endOf source, scan source, (endOf source).span.start, [], 0⟩
  obtain ⟨hpassed, hnext, hahead⟩ :=
    readToken_of_terminals (map_terminal? h) (endOf source).span.start
  have hafter : start.advance.After (terminals source) :=
    ⟨fun t ht => kind_ne_of_mem_terminals ht, hnext, hahead⟩
  have herrors : start.advance.errors = [] := hpassed
  exact ⟨hafter.advance, by rw [← herrors, ← hafter.errors_advance]; rfl⟩

end Parser

/-! ### Clean runs -/

namespace Parse

variable {α β : Type} {p q : Parser}

structure Clean (r : Parse α) (p : Parser) (a : α) (q : Parser) : Prop where
  run : r p = .ok a q
  errors_eq : q.errors = p.errors

theorem Clean.bind_inv {r : Parse α} {f : α → Parse β} {b : β} [Orderly r]
    [∀ a, Orderly (f a)] (h : Clean (r >>= f) p b q) :
    ∃ a m, Clean r p a m ∧ Clean (f a) m b q := by
  obtain ⟨hrun, herrors⟩ := h
  obtain ⟨a, m, hr, hf⟩ := bind_eq_ok hrun
  have hgrow : p.errors <+: m.errors := (Orderly.moves hr).errors_grow
  have hgrow' : m.errors <+: q.errors := (Orderly.moves hf).errors_grow
  -- The errors in between lie between two lists that are the same.
  have heq : m.errors = p.errors := by
    rw [herrors] at hgrow'
    exact hgrow'.eq_of_length_le hgrow.length_le
  exact ⟨a, m, ⟨hr, heq⟩, hf, by rw [herrors, heq]⟩

theorem Clean.pure_inv {a b : α} (h : Clean (pure a) p b q) : a = b ∧ p = q := by
  have := h.run
  rw [pure_run] at this
  cases this
  exact ⟨rfl, rfl⟩

theorem Clean.of_advance {f : Unit → Parse β} {b : β} {ts : List Terminal}
    (h : Clean (advance >>= f) p b q) (hp : p.After ts) :
    p.advance.On ts ∧ Clean (f ()) p.advance b q :=
  ⟨hp.advance, h.run, by rw [h.errors_eq, hp.errors_advance]⟩

theorem Clean.of_nextKind {f : TokenKind → Parse β} {b : β}
    (h : Clean (nextKind >>= f) p b q) : Clean (f p.next.kind) p b q :=
  ⟨h.run, h.errors_eq⟩

theorem Clean.of_turns {f : Nat → Parse β} {b : β}
    (h : Clean (turns >>= f) p b q) : Clean (f (p.left + 2)) p b q :=
  ⟨h.run, h.errors_eq⟩

theorem Clean.of_expect {kind : TokenKind} {f : Unit → Parse β} {b : β}
    {ts : List Terminal} (h : Clean (expect kind >>= f) p b q) (hp : p.After ts)
    (hkind : kind.isSymbol = true) :
    ∃ us m, ts = .symbol kind :: us ∧ m.On ts ∧ Clean (f ()) m b q := by
  have hrun := h.run
  rw [expect_bind_run] at hrun
  split at hrun
  · rename_i hk
    obtain ⟨us, rfl⟩ := hp.eq_cons hk hkind
    exact ⟨us, p.advance, rfl, hp.advance, hrun, by rw [h.errors_eq, hp.errors_advance]⟩
  · cases hrun

theorem Clean.of_identifier {f : String → Parse β} {b : β} {ts : List Terminal}
    (h : Clean (identifier >>= f) p b q) (hp : p.After ts) :
    ∃ x us m, ts = .name x :: us ∧ m.After us ∧ Clean (f x) m b q := by
  have hrun := h.run
  rw [identifier_bind_run] at hrun
  split at hrun
  · rename_i hk
    obtain ⟨us, rfl⟩ := hp.exists_cons (by rw [hk]; decide)
    rw [Token.terminal_eq_name hk] at hp
    exact ⟨_, us, p.advance, by rw [Token.terminal_eq_name hk], hp.advance.after, hrun,
      by rw [h.errors_eq, hp.errors_advance]⟩
  · cases hrun

theorem Clean.of_attempt {r : Parse α} {f : Option α → Parse β} {b : β} [Orderly r]
    (h : Clean (attempt r >>= f) p b q) (hf : ∀ o, Orderly (f o)) :
    ∃ a m, Clean r p a m ∧ Clean (f (some a)) m b q := by
  obtain ⟨o, m, ⟨hrun, herrors⟩, h⟩ := h.bind_inv
  have hr := Orderly.leads (r := r) p
  unfold attempt at hrun
  cases hm : r p with
  | ok a m' =>
      rw [hm] at hrun
      cases hrun
      exact ⟨a, m, ⟨hm, herrors⟩, h⟩
  | error e m' =>
      rw [hm] at hrun hr
      cases hrun
      -- It would have recorded why it stopped.
      have hlt := hr.2
      rw [herrors] at hlt
      exact absurd hlt (Nat.lt_irrefl _)

end Parse

end ScriptLang
