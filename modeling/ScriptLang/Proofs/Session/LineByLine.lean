import Mathlib
import ScriptLang.CommandLine.Response
import ScriptLang.Proofs.Eval.Fragment
import ScriptLang.Proofs.Eval.Invariant
import ScriptLang.Proofs.Printing.RoundTrip
import ScriptLang.Proofs.Text.Lines

/-!
A program entered line by line. The canonical text of a program has each statement on a
line of its own, so a session over this text takes one statement after another. Each of
them is read as it was printed, and is run in the scope and the store in which a run of
the whole program would run it. So the session ends with the same store as the run, and
has printed the same; it also shows the values of the statements before the last one,
which a run of the program does not show.
-/

namespace ScriptLang

/-- What is shown of a value: nothing if it is null, and else its text on a line. -/
def Value.shown (order : HashOrder) (v : Value) : String :=
  if v.isNull then "" else v.display order ++ "\n"

def Stmt.evalInTurn (c : Caller) (s : ScopeId) : List Stmt → Eval (List Value)
  | [] => pure []
  | a :: b => do
    let v ← a.eval c s
    let vs ← Stmt.evalInTurn c s b
    pure (v :: vs)

/-! ### Statements one after another -/

section

variable {c : Caller} {s : ScopeId} {st st' : Store}

theorem evalInTurn_cons_iff {a : Stmt} {b : Block} {vs : List Value} :
    Stmt.evalInTurn c s (a :: b) st = .ok vs st' ↔
      ∃ w ws st₁, vs = w :: ws ∧ a.eval c s st = .ok w st₁ ∧
        Stmt.evalInTurn c s b st₁ = .ok ws st' := by
  simp only [Stmt.evalInTurn, Eval.bind_eq_ok_iff]
  constructor
  · rintro ⟨w, st₁, hw, ws, st₂, hws, ⟨⟩⟩
    exact ⟨w, ws, st₁, rfl, hw, hws⟩
  · rintro ⟨w, ws, st₁, rfl, hw, hws⟩
    exact ⟨w, st₁, hw, ws, st', hws, rfl⟩

theorem length_evalInTurn {b : Block} {vs : List Value}
    (h : Stmt.evalInTurn c s b st = .ok vs st') : vs.length = b.length := by
  induction b generalizing st vs with
  | nil => cases h; rfl
  | cons a b ih =>
      obtain ⟨w, ws, st₁, rfl, -, hws⟩ := evalInTurn_cons_iff.mp h
      rw [List.length_cons, List.length_cons, ih hws]

theorem evalBlock_eq_ok_iff {b : Block} {v : Value} :
    Stmt.evalBlock c s b st = .ok v st' ↔
      ∃ vs, Stmt.evalInTurn c s b st = .ok vs st' ∧ vs.getLast?.getD .null = v := by
  induction b generalizing st with
  | nil =>
      constructor
      · rintro ⟨⟩
        exact ⟨[], rfl, rfl⟩
      · rintro ⟨_, ⟨⟩, rfl⟩
        rfl
  | cons a b ih =>
      by_cases hb : b = []
      · subst hb
        constructor
        · exact fun hv => ⟨[v], evalInTurn_cons_iff.mpr ⟨v, [], st', rfl, hv, rfl⟩, rfl⟩
        · rintro ⟨vs, hvs, rfl⟩
          obtain ⟨w, ws, st₁, rfl, hw, ⟨⟩⟩ := evalInTurn_cons_iff.mp hvs
          exact hw
      · -- Behind the first statement there is another one, and the last value is among
        -- the values of the rest.
        have hlast {w : Value} {ws : List Value} {st₁ : Store}
            (hws : Stmt.evalInTurn c s b st₁ = .ok ws st') :
            (w :: ws).getLast? = ws.getLast? := by
          have hne : ws ≠ [] := by
            rw [← List.length_pos_iff, length_evalInTurn hws]
            exact List.length_pos_iff.mpr hb
          obtain ⟨u, us, rfl⟩ := List.exists_cons_of_ne_nil hne
          exact List.getLast?_cons_cons
        rw [evalBlock_cons_run hb, Eval.bind_eq_ok_iff]
        constructor
        · rintro ⟨w, st₁, hw, hv⟩
          obtain ⟨ws, hws, hlastValue⟩ := ih.mp hv
          exact ⟨w :: ws, evalInTurn_cons_iff.mpr ⟨w, ws, st₁, rfl, hw, hws⟩,
            by rw [hlast hws, hlastValue]⟩
        · rintro ⟨vs, hvs, hlastValue⟩
          obtain ⟨w, ws, st₁, rfl, hw, hws⟩ := evalInTurn_cons_iff.mp hvs
          rw [hlast hws] at hlastValue
          exact ⟨w, st₁, hw, ih.mpr ⟨ws, hws, hlastValue⟩⟩

/-- What has been printed before is still the beginning of what has been printed. -/
def Invariant.printing (before : List Value) : Invariant :=
  .ofStores (fun st => before <+: st.printed.toList) (fun _ => True)
    (by
      intro st st' s x v h _ hdefine
      rwa [Store.printed_define hdefine])
    (fun _ h => ⟨trivial, h⟩) (fun _ _ _ h => h)
    (fun v h => by
      rw [Store.print, Array.toList_push]
      exact h.trans (List.prefix_append _ [v]))

/-- What has been printed stays printed: a statement only adds to it. -/
theorem exists_printed_append {order : HashOrder} {depth : Nat} {a : Stmt} {v : Value}
    (h : a.eval (Eval.caller order depth) s st = .ok v st') :
    ∃ out, st'.printed.toList = st.printed.toList ++ out := by
  have hnode : (Fragment.stmt a).eval (Eval.caller order depth) s st = .ok v st' := h
  obtain ⟨⟨out, hout⟩, -, -⟩ := (Invariant.printing st.printed.toList).of_eval_eq_ok
    (List.prefix_refl _) trivial hnode
  exact ⟨out, hout.symm⟩

end

/-! ### Texts of statements -/

theorem Stmt.exists_print_eq (a : Stmt) : ∃ t, a.print = t ++ ";" := by
  cases a with
  | var x e => exact ⟨_, rfl⟩
  | ret e => exact ⟨_, rfl⟩
  | expr e => exact ⟨_, rfl⟩

theorem Stmt.getLast?_print (a : Stmt) : a.print.toList.getLast? = some ';' := by
  obtain ⟨t, ht⟩ := a.exists_print_eq
  rw [ht, String.toList_append]
  exact List.getLast?_concat

theorem Text.getLast?_trim {t : String} {c : Char} (h : t.toList.getLast? = some c)
    (hc : Text.isBlank c = false) : (Text.trim t).toList.getLast? = some c := by
  obtain ⟨cs, ht⟩ := List.getLast?_eq_some_iff.mp h
  have hfront : ∃ ds, t.toList.dropWhile Text.isBlank = ds ++ [c] := by
    rw [ht, List.dropWhile_append]
    split
    · exact ⟨[], by simp [hc]⟩
    · exact ⟨_, rfl⟩
  obtain ⟨ds, hds⟩ := hfront
  have htrim : (Text.trim t).toList = ds ++ [c] := by
    rw [Text.trim, String.toList_ofList, hds, List.reverse_concat,
      List.dropWhile_cons_of_neg (by simp [hc]), List.reverse_cons, List.reverse_reverse]
  rw [htrim]
  exact List.getLast?_concat

/-- No statement is mistaken for the end of the session. -/
theorem Repl.isExit_print (a : Stmt) : Repl.isExit a.print = false := by
  have hlast := Text.getLast?_trim a.getLast?_print (by decide)
  refine decide_eq_false fun hexit => ?_
  rw [hexit] at hlast
  cases hlast

theorem Stmt.isLine_print {a : Stmt} (h : '\n' ∉ a.print.toList) : Text.IsLine a.print where
  ne_empty hempty := by
    have hlast := a.getLast?_print
    rw [hempty] at hlast
    cases hlast
  noLineFeed := h
  noReturn := by
    rw [a.getLast?_print]
    decide

/-- A statement of a program that can be read from its text can be read from its own
line. -/
theorem parse_print_of_mem {p : Program} (h : Stmt.AllWritable p)
    (hdepth : Stmt.nestingAll p ≤ maxNesting) {a : Stmt} (ha : a ∈ p) :
    parse a.print = ([a], []) := by
  induction p with
  | nil => cases ha
  | cons b p ih =>
      rw [Stmt.nestingAll] at hdepth
      rcases List.mem_cons.mp ha with rfl | hmem
      · have hread : parse (Program.print [a]) = ([a], []) := by
          refine parse_print ⟨h.1, trivial⟩ ?_
          rw [Stmt.nestingAll, Stmt.nestingAll]
          omega
        exact hread
      · exact ih h.2 (by omega) hmem

namespace Repl

/-! ### Sessions -/

variable {settings : Settings}

theorem turn_eq {i : Interpreter} {line : String} {a : Stmt} {v : Value} {st : Store}
    (hparse : parse line = ([a], []))
    (hrun : a.eval (Eval.caller settings.order settings.callDepth) i.scope i.store = .ok v st) :
    turn settings i line =
      (⟨i.store.printedSince st, v.shown settings.order⟩, { i with store := st }) := by
  have houtcome : Program.run settings i.scope [a] i.store = (.value v, st) := by
    unfold Program.run
    rw [show Stmt.evalBlock _ i.scope [a] i.store = _ from hrun]
  simp only [turn, Interpreter.runSource, runSource, hparse, houtcome]
  rfl

/-- A session over the lines of statements runs the statements one after another. -/
theorem session_print {p : Program} {i : Interpreter} {vs : List Value} {st : Store}
    (hparse : ∀ a ∈ p, parse a.print = ([a], []))
    (hrun : Stmt.evalInTurn (Eval.caller settings.order settings.callDepth) i.scope p i.store =
      .ok vs st) :
    let s := session settings i (p.map fun a => some a.print)
    s.ending = .regular ∧ s.last = { i with store := st } ∧
      s.turns.map Turn.written = vs.map (Value.shown settings.order) ∧
      st.printed.toList = i.store.printed.toList ++ s.printed := by
  induction p generalizing i vs with
  | nil =>
      cases hrun
      exact ⟨rfl, rfl, rfl, (List.append_nil _).symm⟩
  | cons a p ih =>
      obtain ⟨ha, hp⟩ := List.forall_mem_cons.mp hparse
      obtain ⟨w, ws, st₁, rfl, hw, hws⟩ := evalInTurn_cons_iff.mp hrun
      obtain ⟨hending, hlast, hwritten, hprinted⟩ :=
        @ih { i with store := st₁ } ws hp hws
      obtain ⟨out, hout⟩ := exists_printed_append hw
      have hsince : i.store.printedSince st₁ = out := by
        rw [Store.printedSince, hout, ← Array.length_toList, List.drop_left]
      simp only [List.map_cons, session, isExit_print, turn_eq ha hw]
      refine ⟨hending, hlast, ?_, ?_⟩
      · rw [← hwritten]
        rfl
      · rw [hprinted, hout, List.append_assoc]
        simp [Session.printed, hsince]

/-- A session agrees with a run.

Let a program be read from a source text in which nothing is wrong, with no line feed in
the text of any of its statements and within the limit of nesting, and let it run to its
end from the start: without an error, and without a `return` outside of a function. A
session over the canonical text of the program, with each statement on a line of its own,
then leaves the same store behind as the run, with the same bindings, and has printed the
same values. The session writes the prompt, and for each statement its value unless that is
null, and the prompt again. What it shows of the last statement is what the run of the
source text shows behind the printed values. -/
theorem session_agrees_with_run (settings : Settings) (prompt : String) {source : String}
    {p : Program} {v : Value} {st : Store} (hparse : parse source = (p, []))
    (hlines : ∀ a ∈ p, '\n' ∉ a.print.toList) (hdepth : Stmt.nestingAll p ≤ maxNesting)
    (hrun : Stmt.evalBlock (Eval.caller settings.order settings.callDepth)
      Interpreter.start.scope p Interpreter.start.store = .ok v st) :
    let s := session settings .start (Text.lines (utf8Bytes (Program.print p)))
    s.ending = .regular ∧
      s.last = (Interpreter.start.run settings p).2 ∧
      s.printed = (Interpreter.start.run settings p).2.store.printed.toList ∧
      ∃ vs : List Value,
        Stmt.evalInTurn (Eval.caller settings.order settings.callDepth)
          Interpreter.start.scope p Interpreter.start.store = .ok vs st ∧
        vs.length = p.length ∧
        s.output prompt =
          prompt ++ String.join (vs.map fun v => v.shown settings.order ++ prompt) ∧
        CommandLine.runProgram settings source =
          ⟨.success, printedText settings.order s.printed
            ++ (vs.getLast?.getD .null).shown settings.order, ""⟩ := by
  have hwritable : Stmt.AllWritable p := by
    have := allWritable_parse source
    rwa [hparse] at this
  have htexts : Text.lines (utf8Bytes (Program.print p)) = p.map fun a => some a.print := by
    rw [Program.print, Text.lines_separated, List.map_map]
    · rfl
    · intro t ht
      obtain ⟨a, ha, rfl⟩ := List.mem_map.mp ht
      exact Stmt.isLine_print (hlines a ha)
  obtain ⟨vs, hvs, hlastValue⟩ := evalBlock_eq_ok_iff.mp hrun
  obtain ⟨hending, hlast, hwritten, happend⟩ :=
    session_print (fun a ha => parse_print_of_mem hwritable hdepth ha) hvs
  have hprinted : (session settings .start (p.map fun a => some a.print)).printed =
      st.printed.toList := happend.symm
  have houtcome : Program.run settings Interpreter.start.scope p Interpreter.start.store =
      (.value v, st) := by
    rw [Program.run, hrun]
  have hstart : Interpreter.start.run settings p =
      (.value v, { Interpreter.start with store := st }) := by
    rw [Interpreter.run, houtcome]
  have hsource : Interpreter.start.runSource settings source =
      (.finished (.value v), { Interpreter.start with store := st }) := by
    simp only [Interpreter.runSource, runSource, hparse, houtcome]
    rfl
  rw [htexts, hstart]
  refine ⟨hending, hlast, hprinted, vs, hvs, length_evalInTurn hvs, ?_, ?_⟩
  · have hturns := congrArg (List.map (· ++ prompt)) hwritten
    rw [List.map_map, List.map_map] at hturns
    exact congrArg (fun texts => prompt ++ String.join texts) hturns
  · rw [CommandLine.runProgram, hsource, hlastValue, hprinted]
    rfl

/-- The statements of the text `var a = 2; var f = func(b) { puts(b); return a * b; }; f(3)`. -/
def multiplyingProgram : Program :=
  [.var "a" (.int 2),
    .var "f" (.func ["b"] [.expr (.call (.name "puts") [.name "b"]),
      .ret (.binary .times (.name "a") (.name "b"))]),
    .expr (.call (.name "f") [.int 3])]

/-- The function that is made on the second line is called on the third. -/
theorem session_agrees_with_run_function :
    let s := session Settings.standard .start
      (Text.lines (utf8Bytes (Program.print multiplyingProgram)))
    s.printed = [.int 3] ∧ s.output "> " = "> > > 6\n> " := by
  have hparse : parse "var a = 2; var f = func(b) { puts(b); return a * b; }; f(3)" =
      (multiplyingProgram, []) := by
    cbv
  have hlines : ∀ a ∈ multiplyingProgram, '\n' ∉ a.print.toList := by
    decide +kernel
  obtain ⟨st, hturn⟩ : ∃ st, Stmt.evalInTurn
      (Eval.caller Settings.standard.order Settings.standard.callDepth) Interpreter.start.scope
      multiplyingProgram Interpreter.start.store = .ok [.null, .null, .int 6] st :=
    ⟨_, by cbv⟩
  obtain ⟨-, -, hprinted, vs, hvs, -, houtput, -⟩ := session_agrees_with_run Settings.standard
    "> " hparse hlines (by decide) (evalBlock_eq_ok_iff.mpr ⟨_, hturn, rfl⟩)
  rw [hturn] at hvs
  cases hvs
  refine ⟨hprinted.trans ?_, houtput.trans ?_⟩
  · cbv
  · decide +kernel

end Repl

end ScriptLang
