import ScriptLang.Proofs.Parser.Construction
import ScriptLang.Proofs.Printing.Limit

/-!
How deeply expressions lie inside one another in what the parser builds. The parser counts
the expressions that are under construction at one time, and what stands to the left of an
operator, a call or an index is complete before the whole of it is begun. So there are two
ways from an expression to one directly inside it: to the left, which costs no level, and
further inside, which costs one. On no way inward are there as many steps of the second kind
as there are levels (`count_inside_lt`). But to the left a way can go on without end, as the
sums `1+1+…+1` show, and so the trees of programs can be of any height.
-/

namespace ScriptLang

/-! ### Ways inward -/

/-- Where an expression stands in the one directly around it. -/
inductive Side
  /-- To the left of the operator, of the arguments or of the index. -/
  | left
  | inside
  deriving DecidableEq

def Stmt.root : Stmt → Expr
  | .var _ e | .ret e | .expr e => e

inductive Expr.Encloses : Side → Expr → Expr → Prop
  | operand (op : UnaryOp) (e : Expr) : Encloses .inside (.unary op e) e
  | left (op : BinaryOp) (l r : Expr) : Encloses .left (.binary op l r) l
  | right (op : BinaryOp) (l r : Expr) : Encloses .inside (.binary op l r) r
  | condition (c : Expr) (t : Block) (a : Option Block) : Encloses .inside (.cond c t a) c
  | consequence {t : Block} {s : Stmt} (c : Expr) (a : Option Block) :
      s ∈ t → Encloses .inside (.cond c t a) s.root
  | alternative {b : Block} {s : Stmt} (c : Expr) (t : Block) :
      s ∈ b → Encloses .inside (.cond c t (some b)) s.root
  | body {b : Block} {s : Stmt} (xs : List String) :
      s ∈ b → Encloses .inside (.func xs b) s.root
  | callee (f : Expr) (es : List Expr) : Encloses .left (.call f es) f
  | argument {es : List Expr} {e : Expr} (f : Expr) : e ∈ es → Encloses .inside (.call f es) e
  | item {es : List Expr} {e : Expr} : e ∈ es → Encloses .inside (.array es) e
  | collection (c i : Expr) : Encloses .left (.index c i) c
  | index (c i : Expr) : Encloses .inside (.index c i) i
  | key {ps : List (Expr × Expr)} {p : Expr × Expr} :
      p ∈ ps → Encloses .inside (.hash ps) p.1
  | value {ps : List (Expr × Expr)} {p : Expr × Expr} :
      p ∈ ps → Encloses .inside (.hash ps) p.2

/-- A way inward, from each expression to one directly inside it. All the expressions on the
way but the last one enclose the last one, so they are as many as there are steps. -/
inductive Expr.Path : Expr → List Side → Expr → Prop
  | here (e : Expr) : Path e [] e
  | step {side : Side} {path : List Side} {e d f : Expr} :
      e.Encloses side d → Path d path f → Path e (side :: path) f

/-- On no way inward are there so many steps inside. -/
def Expr.Shallow (room : Nat) (e : Expr) : Prop :=
  ∀ path d, e.Path path d → path.count .inside < room

/-! ### Heights -/

theorem Expr.heightEach_le_iff {es : List Expr} {n : Nat} :
    Expr.heightEach es ≤ n ↔ ∀ e ∈ es, e.height ≤ n := by
  induction es with
  | nil => simp [Expr.heightEach]
  | cons e es ih => rw [Expr.heightEach, Nat.max_le, ih, List.forall_mem_cons]

theorem Expr.heightPairs_le_iff {ps : List (Expr × Expr)} {n : Nat} :
    Expr.heightPairs ps ≤ n ↔ ∀ p ∈ ps, p.1.height ≤ n ∧ p.2.height ≤ n := by
  induction ps with
  | nil => simp [Expr.heightPairs]
  | cons p ps ih =>
      rw [Expr.heightPairs, Nat.max_le, Nat.max_le, ih, List.forall_mem_cons, and_assoc]

theorem Stmt.height_eq_height_root (s : Stmt) : s.height = s.root.height := by
  cases s <;> rfl

theorem Stmt.heightAll_le_iff {ss : List Stmt} {n : Nat} :
    Stmt.heightAll ss ≤ n ↔ ∀ s ∈ ss, s.root.height ≤ n := by
  induction ss with
  | nil => simp [Stmt.heightAll]
  | cons s ss ih =>
      rw [Stmt.heightAll, Nat.max_le, ih, List.forall_mem_cons, Stmt.height_eq_height_root]

namespace Expr

variable {n : Nat}

/-- An expression is higher by one than what stands directly inside it. -/
theorem height_le_succ_iff {e : Expr} :
    e.height ≤ n + 1 ↔ ∀ side d, e.Encloses side d → d.height ≤ n := by
  cases e with
  | name | int | str | bool => exact iff_of_true (Nat.succ_pos n) nofun
  | unary op e =>
      rw [height, Nat.add_comm, Nat.succ_le_succ_iff]
      exact ⟨fun h _ _ hd => by cases hd; exact h, fun h => h _ _ (.operand op e)⟩
  | binary op l r =>
      rw [height, Nat.add_comm, Nat.succ_le_succ_iff, Nat.max_le]
      refine ⟨fun h _ _ hd => ?_, fun h => ⟨h _ _ (.left op l r), h _ _ (.right op l r)⟩⟩
      cases hd with
      | left => exact h.1
      | right => exact h.2
  | cond c t a =>
      rw [height, Nat.add_comm, Nat.succ_le_succ_iff, Nat.max_le, Nat.max_le,
        Stmt.heightAll_le_iff]
      refine ⟨fun h _ _ hd => ?_, fun h => ⟨h _ _ (.condition c t a),
        fun s hs => h _ _ (.consequence c a hs), ?_⟩⟩
      · cases hd with
        | condition => exact h.1
        | consequence _ _ hs => exact h.2.1 _ hs
        | alternative _ _ hs => exact Stmt.heightAll_le_iff.mp h.2.2 _ hs
      · cases a with
        | none => exact Nat.zero_le n
        | some b => exact Stmt.heightAll_le_iff.mpr fun s hs => h _ _ (.alternative c t hs)
  | func xs b =>
      rw [height, Nat.add_comm, Nat.succ_le_succ_iff, Stmt.heightAll_le_iff]
      refine ⟨fun h _ _ hd => ?_, fun h s hs => h _ _ (.body xs hs)⟩
      cases hd with
      | body _ hs => exact h _ hs
  | call f es =>
      rw [height, Nat.add_comm, Nat.succ_le_succ_iff, Nat.max_le, heightEach_le_iff]
      refine ⟨fun h _ _ hd => ?_, fun h => ⟨h _ _ (.callee f es),
        fun e he => h _ _ (.argument f he)⟩⟩
      cases hd with
      | callee => exact h.1
      | argument _ he => exact h.2 _ he
  | array es =>
      rw [height, Nat.add_comm, Nat.succ_le_succ_iff, heightEach_le_iff]
      refine ⟨fun h _ _ hd => ?_, fun h e he => h _ _ (.item he)⟩
      cases hd with
      | item he => exact h _ he
  | index c i =>
      rw [height, Nat.add_comm, Nat.succ_le_succ_iff, Nat.max_le]
      refine ⟨fun h _ _ hd => ?_, fun h => ⟨h _ _ (.collection c i), h _ _ (.index c i)⟩⟩
      cases hd with
      | collection => exact h.1
      | index => exact h.2
  | hash ps =>
      rw [height, Nat.add_comm, Nat.succ_le_succ_iff, heightPairs_le_iff]
      refine ⟨fun h _ _ hd => ?_, fun h p hp => ⟨h _ _ (.key hp), h _ _ (.value hp)⟩⟩
      cases hd with
      | key hp => exact (h _ hp).1
      | value hp => exact (h _ hp).2

theorem height_pos (e : Expr) : 0 < e.height := by
  cases e <;> simp only [height] <;> omega

/-- The height bounds the ways inward: it is the least number that is greater than the
number of steps of each of them. -/
theorem height_le_iff {e : Expr} :
    e.height ≤ n ↔ ∀ path d, e.Path path d → path.length < n := by
  induction n generalizing e with
  | zero =>
      refine iff_of_false (Nat.not_le.mpr e.height_pos) fun h => ?_
      exact Nat.not_lt_zero _ (h [] e (.here e))
  | succ n ih =>
      rw [height_le_succ_iff]
      constructor
      · rintro h _ _ (_ | ⟨hd, hpath⟩)
        · exact Nat.succ_pos n
        · exact Nat.succ_lt_succ (ih.mp (h _ _ hd) _ _ hpath)
      · intro h side d hd
        exact ih.mpr fun path f hpath => Nat.lt_of_succ_lt_succ (h _ _ (.step hd hpath))

end Expr

/-! ### What the parser builds is shallow -/

theorem Stmt.root_of_madeOf {P : Expr → Prop} {s : Stmt} (h : s.MadeOf P) : P s.root := by
  cases s with
  | var x e => exact h.2
  | ret e => exact h
  | expr e => exact h

namespace Expr

variable {room : Nat} {e : Expr}

/-- An expression is shallow if what it has to the left is as shallow, and if everything
inside is more shallow by one step. -/
theorem shallow_succ (hinside : ∀ d, e.Encloses .inside d → d.Shallow room)
    (hleft : ∀ d, e.Encloses .left d → d.Shallow (room + 1)) : e.Shallow (room + 1) := by
  intro path f hpath
  cases hpath with
  | here => exact Nat.succ_pos room
  | @step side path _ d _ hd hpath =>
      cases side with
      | left =>
          rw [List.count_cons_of_ne (by decide)]
          exact hleft d hd path f hpath
      | inside =>
          rw [List.count_cons_self]
          exact Nat.succ_lt_succ (hinside d hd path f hpath)

theorem Shallow.succ (h : e.Shallow room) : e.Shallow (room + 1) :=
  fun path d hpath => Nat.lt_succ_of_lt (h path d hpath)

/-- Every level allows for one more step inside. -/
theorem construction_shallow (room : Nat) :
    Parse.Construction (Shallow room) (Shallow (room + 1)) where
  name _ := shallow_succ nofun nofun
  int _ := shallow_succ nofun nofun
  str _ := shallow_succ nofun nofun
  bool _ := shallow_succ nofun nofun
  grouped he := he.succ
  unary op e he := by
    refine shallow_succ (fun d hd => ?_) nofun
    cases hd
    exact he
  cond hc ht ha := by
    refine shallow_succ (fun d hd => ?_) nofun
    cases hd with
    | condition => exact hc
    | consequence _ _ hs => exact Stmt.root_of_madeOf (ht _ hs)
    | alternative _ _ hs => exact Stmt.root_of_madeOf (ha _ rfl _ hs)
  func _ hb := by
    refine shallow_succ (fun d hd => ?_) nofun
    cases hd with
    | body _ hs => exact Stmt.root_of_madeOf (hb _ hs)
  array hes := by
    refine shallow_succ (fun d hd => ?_) nofun
    cases hd with
    | item he => exact hes _ he
  hash hps := by
    refine shallow_succ (fun d hd => ?_) nofun
    cases hd with
    | key hp => exact (hps _ hp).1
    | value hp => exact (hps _ hp).2
  binary op l r hl hr := by
    refine shallow_succ (fun d hd => ?_) fun d hd => ?_
    · cases hd
      exact hr
    · cases hd
      exact hl
  call hf hes := by
    refine shallow_succ (fun d hd => ?_) fun d hd => ?_
    · cases hd with
      | argument _ he => exact hes _ he
    · cases hd
      exact hf
  index hc hi := by
    refine shallow_succ (fun d hd => ?_) fun d hd => ?_
    · cases hd
      exact hi
    · cases hd
      exact hc

end Expr

/-- In what the parser yields, every way inward has fewer steps inside than there are
levels. -/
theorem count_inside_lt {source : String} {s : Stmt} {path : List Side} {d : Expr}
    (hs : s ∈ (parse source).1) (hpath : s.root.Path path d) :
    path.count .inside < maxNesting :=
  Stmt.root_of_madeOf (madeOf_parse Expr.construction_shallow source s hs) path d hpath

/-! ### Sums of any length -/

/-- `1+1+…+1` with so many plus signs, as it is written. -/
def sumOfOnes : Nat → Phrase
  | 0 => .int "1" 1
  | n + 1 => .binary .plus (sumOfOnes n) (.int "1" 1)

def sumText (n : Nat) : String :=
  String.ofList ('1' :: (List.replicate n ['+', '1']).flatten)

theorem yield_sumOfOnes (n : Nat) :
    (sumOfOnes n).yield =
      .int "1" :: (List.replicate n [.symbol .plus, .int "1"]).flatten := by
  induction n with
  | zero => rfl
  | succ n ih =>
      rw [sumOfOnes, Phrase.yield, ih, List.replicate_succ', List.flatten_append]
      rfl

theorem spells_one {rest : List Char} {ts : List Terminal} (hrest : Breaks rest)
    (h : Spells rest ts) : Spells ('1' :: rest) (.int "1" :: ts) := by
  have hdigits : ∀ d ∈ "1".toList, d.isDigit = true := by simp
  exact spells_int (by decide) hdigits hrest h

theorem spells_sumOfOnes (n : Nat) : Spells (sumText n).toList (sumOfOnes n).yield := by
  have hbreaks (n : Nat) : Breaks (List.replicate n ['+', '1']).flatten := by
    cases n with
    | zero => exact nofun
    | succ n => exact breaks_cons _ rfl
  rw [sumText, String.toList_ofList, yield_sumOfOnes]
  refine spells_one (hbreaks n) ?_
  induction n with
  | zero => exact spells_nil
  | succ n ih => exact spells_symbol rfl rfl (spells_one (hbreaks n) ih)

theorem wellFormed_sumOfOnes (n : Nat) :
    .sum ≤ (sumOfOnes n).binding ∧ (sumOfOnes n).WellFormed := by
  have hone : integer? (Text.readDecimal "1") = some 1 := by decide
  induction n with
  | zero => exact ⟨by decide, hone⟩
  | succ n ih => exact ⟨Nat.le_refl _, ⟨ih.1, by decide⟩, ih.2, hone⟩

theorem depth_sumOfOnes_le (n : Nat) : (sumOfOnes n).depth ≤ 2 := by
  induction n with
  | zero => decide
  | succ n ih => exact Nat.max_le.mpr ⟨ih, by decide⟩

theorem parse_sumText (n : Nat) : parse (sumText n) = ([.expr (sumOfOnes n).tree], []) := by
  have hspells := spells_sumOfOnes n
  refine (parse_eq_iff _ _).mpr ⟨error_not_mem_scan_of_spells hspells,
    [.expr (sumOfOnes n) false], ?_, ?_, ?_, rfl⟩
  · rw [terminals_eq_of_spells hspells]
    simp [Sentence.yieldAll, Sentence.yield, ending]
  · exact ⟨(wellFormed_sumOfOnes n).2, .inr nofun, trivial⟩
  · have hdepth := depth_sumOfOnes_le n
    simp only [Sentence.depthAll, Sentence.depth, maxNesting]
    omega

/-- The first number of a sum lies inside as many expressions as there are plus signs. -/
theorem path_sumOfOnes (n : Nat) :
    (sumOfOnes n).tree.Path (List.replicate n .left) (.int 1) := by
  induction n with
  | zero => exact .here _
  | succ n ih => exact .step (.left .plus _ _) ih

theorem path_signs (n : Nat) :
    ((List.replicate n UnaryOp.minus).foldr Expr.unary (.int 1)).Path
      (List.replicate n .inside) (.int 1) := by
  induction n with
  | zero => exact .here _
  | succ n ih => exact .step (.operand .minus _) ih

/-! ### The nesting limit -/

/-- What the nesting limit bounds. Whatever the text, accepted or not, every way inward in
what the parser yields has fewer steps inside than there are levels. All ways inward have
fewer steps than there are levels exactly if the program is no higher than there are levels,
and that need not be so: there are accepted texts in which an expression lies as many steps
inside as the levels allow, and accepted texts in which it lies any number of steps to the
left. -/
theorem nesting_bounded_inside (source : String) (n : Nat) :
    (∀ s ∈ (parse source).1, ∀ path d, s.root.Path path d →
      path.count .inside < maxNesting) ∧
    ((∀ s ∈ (parse source).1, ∀ path d, s.root.Path path d → path.length < maxNesting) ↔
      Stmt.heightAll (parse source).1 ≤ maxNesting) ∧
    (n < maxNesting → ∃ text s, parse text = ([s], []) ∧
      s.root.Path (List.replicate n .inside) (.int 1)) ∧
    (∃ text s, parse text = ([s], []) ∧
      s.root.Path (List.replicate n .left) (.int 1)) := by
  refine ⟨fun s hs path d hpath => count_inside_lt hs hpath, ?_,
    fun hn => ⟨_, _, parse_signs hn, path_signs n⟩, ⟨_, _, parse_sumText n, path_sumOfOnes n⟩⟩
  rw [Stmt.heightAll_le_iff]
  exact forall₂_congr fun s _ => Expr.height_le_iff.symm

/-- A sum with as many plus signs as there are levels is accepted, and it is higher than
the levels would allow: its first number lies inside as many expressions as there are
levels, though by no step inside. -/
theorem nesting_bounded_inside_sum :
    parse (sumText maxNesting) = ([.expr (sumOfOnes maxNesting).tree], []) ∧
      (sumOfOnes maxNesting).tree.Path (List.replicate maxNesting .left) (.int 1) ∧
      (List.replicate maxNesting Side.left).count .inside < maxNesting ∧
      ¬ Stmt.heightAll [.expr (sumOfOnes maxNesting).tree] ≤ maxNesting := by
  have hparse := parse_sumText maxNesting
  have hpath := path_sumOfOnes maxNesting
  obtain ⟨hinside, hheight, -⟩ := nesting_bounded_inside (sumText maxNesting) maxNesting
  rw [hparse] at hinside hheight
  refine ⟨hparse, hpath, hinside _ (List.mem_singleton_self _) _ _ hpath, fun hle => ?_⟩
  have hlt := hheight.mpr hle _ (List.mem_singleton_self _) _ _ hpath
  rw [List.length_replicate] at hlt
  exact Nat.lt_irrefl _ hlt

end ScriptLang
