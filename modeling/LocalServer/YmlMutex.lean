import LocalServer.Lib.Runs
import LocalServer.YmlInit
import LocalServer.YmlReadings

/-! The mutex of a parser over sequences of calls. `exec_parser` has five returns,
and only the last of them posts what the wait took. -/
namespace LocalServer.Yml
open LinkedList Regex Runs
open CList (Fault)

/-- All calls of `malloc` of an insertion succeed. -/
def Granted (answers : Blocks) : Prop :=
  answers.cell.isSome ∧ answers.key.isSome ∧ answers.value.isSome

instance (answers : Blocks) : Decidable (Granted answers) :=
  inferInstanceAs (Decidable (_ ∧ _ ∧ _))

variable {map map' : HashMap} {key value : List Byte} {answers : Blocks} {fuel : Nat} {r acc acc' : Int}

/-- An insertion that returns says whether it found memory. -/
theorem hashmapInsert_returns (returned : hashmapInsert map key value answers fuel = .ok (map', r)) :
    (r = 1 ∧ Granted answers) ∨ (r = -1 ∧ ¬ Granted answers) := by
  unfold hashmapInsert at returned
  cases linked : link map (bucket key) answers.cell fuel with
  | error fault =>
    rw [linked] at returned
    cases returned
  | ok map =>
    rw [linked] at returned
    cases cell : answers.cell with
    | none =>
      simp only [cell] at returned
      cases returned
    | some addr =>
      cases keyCopy : answers.key with
      | none =>
        simp only [cell, keyCopy, Except.ok.injEq, Prod.mk.injEq] at returned
        exact .inr ⟨returned.2.symm, by simp [Granted, keyCopy]⟩
      | some keyAddr =>
        cases valueCopy : answers.value with
        | none =>
          simp only [cell, keyCopy, valueCopy, Except.ok.injEq, Prod.mk.injEq] at returned
          exact .inr ⟨returned.2.symm, by simp [Granted, valueCopy]⟩
        | some valueAddr =>
          simp only [cell, keyCopy, valueCopy, Except.ok.injEq, Prod.mk.injEq] at returned
          exact .inl ⟨returned.2.symm, by simp [Granted, cell, keyCopy, valueCopy]⟩

/-! ## What a pass returns -/

variable {pattern : Regex Byte} {quotes n : Nat} {text : List Byte} {memory memory' : Memory}

/-- After a failed insertion the pass goes on and inserts nothing. -/
theorem pass_failed (reg : Regex Byte) (failed : acc < 0) :
    applyMatches reg (insertKeysValues fuel) n text memory acc = .ok (memory, acc) := by
  induction n generalizing text with
  | zero => rfl
  | succ n ih =>
    unfold applyMatches
    cases reg.exec text with
    | none => rfl
    | some found =>
      simp only [insertKeysValues, failed, if_true]
      exact ih

/-- The induction over a pass that returns. It is at the end of what it reads, or has
inserted the first reading and goes on, or has found no memory for it and inserts no
other. -/
theorem pass_induction {motive : List (List Byte × List Byte) → Memory → Memory → Int → Prop}
    (finished : ∀ memory, motive [] memory memory acc)
    (goesOn : ∀ first rest memory map memory' acc', 0 ∉ first.1 → Granted (memory.supply 0) →
      hashmapInsert memory.map first.1 first.2 (memory.supply 0) fuel = .ok (map, 1) →
      motive rest ⟨map, fun n => memory.supply (n + 1)⟩ memory' acc' →
      motive (first :: rest) memory memory' acc')
    (stops : ∀ first rest memory memory', ¬ Granted (memory.supply 0) →
      motive (first :: rest) memory memory' (-1))
    (shape : ValuePattern pattern quotes) (running : 0 ≤ acc)
    (most : (readings pattern quotes acc text).length ≤ n)
    (returned : applyMatches (keyed pattern) (insertKeysValues fuel) n text memory acc =
      .ok (memory', acc')) :
    motive (readings pattern quotes acc text) memory memory' acc' := by
  induction n generalizing text memory with
  | zero =>
    cases returned
    rw [List.length_eq_zero_iff.mp (Nat.le_zero.mp most)]
    exact finished _
  | succ n ih =>
    rcases round_cases shape running text with ⟨found, none⟩ |
      ⟨found, first, rest, executed, whole, behind, noNul, inserts⟩
    · simp only [applyMatches, found] at returned
      cases returned
      rw [none]
      exact finished _
    · rw [whole, List.length_cons] at most
      simp only [applyMatches, executed, inserts] at returned
      rw [whole]
      cases inserted : hashmapInsert memory.map first.1 first.2 (memory.supply 0) fuel with
      | error fault =>
        rw [inserted] at returned
        cases returned
      | ok outcome =>
        obtain ⟨map, r⟩ := outcome
        rw [inserted] at returned
        rcases hashmapInsert_returns inserted with ⟨rfl, granted⟩ | ⟨rfl, refused⟩
        · have later := ih (by rw [behind]; omega) returned
          rw [behind] at later
          exact goesOn first rest memory map memory' acc' noNul granted inserted later
        · have stays : applyMatches (keyed pattern) (insertKeysValues fuel) n (text.drop found.eo)
              ⟨map, fun n => memory.supply (n + 1)⟩ (-1) = .ok (_, -1) :=
            pass_failed (keyed pattern) (by decide)
          cases stays.symm.trans returned
          exact stops first rest memory _ refused

/-- A pass that returns keeps its type exactly when there was memory for all that it
reads. -/
theorem pass_returns (shape : ValuePattern pattern quotes) (running : 0 ≤ acc)
    (most : (readings pattern quotes acc text).length ≤ n)
    (returned : applyMatches (keyed pattern) (insertKeysValues fuel) n text memory acc =
      .ok (memory', acc')) :
    (acc' = acc ∧ (∀ k < (readings pattern quotes acc text).length, Granted (memory.supply k)) ∧
      ∀ k, memory'.supply k = memory.supply ((readings pattern quotes acc text).length + k)) ∨
    (acc' < 0 ∧ ∃ k < (readings pattern quotes acc text).length, ¬ Granted (memory.supply k)) := by
  refine pass_induction (motive := fun read memory memory' acc' =>
      (acc' = acc ∧ (∀ k < read.length, Granted (memory.supply k)) ∧
        ∀ k, memory'.supply k = memory.supply (read.length + k)) ∨
      (acc' < 0 ∧ ∃ k < read.length, ¬ Granted (memory.supply k)))
    ?_ ?_ ?_ shape running most returned
  · intro memory
    refine .inl ⟨rfl, fun k small => absurd small (Nat.not_lt_zero k), fun k => ?_⟩
    rw [List.length_nil, Nat.zero_add]
  · rintro first rest memory map memory' acc' - granted - (⟨same, all, supply⟩ | ⟨failed, k, small, refused⟩)
    · refine .inl ⟨same, fun k small => ?_, fun k => ?_⟩
      · cases k with
        | zero => exact granted
        | succ k => exact all k (Nat.lt_of_succ_lt_succ small)
      · rw [supply, List.length_cons, Nat.add_right_comm]
    · exact .inr ⟨failed, k + 1, Nat.succ_lt_succ small, refused⟩
  · intro first rest memory memory' refused
    exact .inr ⟨by decide, 0, Nat.succ_pos _, refused⟩

/-- The same for a pass whose pattern may not be compiled. -/
theorem regApplyFunc_returns (shape : ValuePattern pattern quotes) (running : 0 ≤ acc) {compiled : Bool}
    (returned : regApplyFunc text (keyed pattern) (insertKeysValues fuel) memory acc compiled =
      .ok (memory', acc')) :
    (acc' = acc ∧ compiled = true ∧
      (∀ k < (readings pattern quotes acc text).length, Granted (memory.supply k)) ∧
      ∀ k, memory'.supply k = memory.supply ((readings pattern quotes acc text).length + k)) ∨
    (acc' < 0 ∧ ¬ (compiled = true ∧
      ∀ k < (readings pattern quotes acc text).length, Granted (memory.supply k))) := by
  cases compiled with
  | false =>
    cases returned
    exact .inr ⟨by decide, fun both => Bool.false_ne_true both.1⟩
  | true =>
    rcases pass_returns shape running (readings_length shape.solid text) returned with
      ⟨same, all, supply⟩ | ⟨failed, k, small, refused⟩
    · exact .inl ⟨same, rfl, all, supply⟩
    · exact .inr ⟨failed, fun both => refused (both.2 k small)⟩

/-! ## What a call leaves -/

/-- The insertions that `exec_parser` makes for a text. -/
def insertions (text : List Byte) : Nat := (ints text).length + (strings text).length

/-- The integers are inserted first, and the strings behind them. -/
theorem forall_insertions {motive : Nat → Prop} :
    (∀ k < insertions text, motive k) ↔
      (∀ k < (ints text).length, motive k) ∧ ∀ k < (strings text).length, motive ((ints text).length + k) := by
  constructor
  · intro all
    exact ⟨fun k small => all k (Nat.lt_add_right _ small), fun k small => all _ (Nat.add_lt_add_left small _)⟩
  · rintro ⟨first, second⟩ k small
    by_cases early : k < (ints text).length
    · exact first k early
    · obtain ⟨later, rfl⟩ := Nat.exists_eq_add_of_le (Nat.le_of_not_lt early)
      exact second later (Nat.lt_of_add_lt_add_left small)

/-- The wait is interrupted, or this is the first execution and nothing in it fails. -/
def GivesBack (parser : Parser) (answers : Answers) : Prop :=
  answers.interrupted = true ∨
    (parser.executed = false ∧ answers.intCompiled = true ∧ answers.stringCompiled = true ∧
      answers.posted = true ∧
      ∀ k < insertions parser.content.bytes, Granted (parser.memory.supply k))

instance (parser : Parser) (answers : Answers) : Decidable (GivesBack parser answers) :=
  inferInstanceAs (Decidable (_ ∨ (_ ∧ _ ∧ _ ∧ _ ∧ _)))

/-- The returns of `exec_parser`, and what leads to each. -/
inductive Returns (fuel : Nat) (parser : Parser) (answers : Answers) : Parser → Int → Prop
  | interrupted (signal : answers.interrupted = true) : Returns fuel parser answers parser YML_SEM_ERROR
  | again (waited : answers.interrupted = false) (executed : parser.executed = true) :
    Returns fuel parser answers { parser with mutex := parser.mutex - 1 } YML_ALREADY_EXECUTED
  | intsFail (waited : answers.interrupted = false) (memory : Memory) (r : Int)
    (ints : regApplyFunc parser.content.bytes YML_INT_REGEX (insertKeysValues fuel) parser.memory
      YML_INT_TYPE answers.intCompiled = .ok (memory, r)) (fails : r < 0) :
    Returns fuel parser answers { parser with mutex := parser.mutex - 1, memory := memory } (-1)
  | stringsFail (waited : answers.interrupted = false) (memory memory' : Memory) (r r' : Int)
    (ints : regApplyFunc parser.content.bytes YML_INT_REGEX (insertKeysValues fuel) parser.memory
      YML_INT_TYPE answers.intCompiled = .ok (memory, r)) (works : ¬ r < 0)
    (strings : regApplyFunc parser.content.bytes YML_STRING_REGEX (insertKeysValues fuel) memory
      YML_STRING_TYPE answers.stringCompiled = .ok (memory', r')) (fails : r' < 0) :
    Returns fuel parser answers { parser with mutex := parser.mutex - 1, memory := memory' } (-1)
  | unposted (waited : answers.interrupted = false) (memory' : Memory) (lost : answers.posted = false) :
    Returns fuel parser answers
      { parser with mutex := parser.mutex - 1, memory := memory', executed := true } YML_SEM_ERROR
  | done (fresh : parser.executed = false) (memory memory' : Memory) (r r' : Int)
    (ints : regApplyFunc parser.content.bytes YML_INT_REGEX (insertKeysValues fuel) parser.memory
      YML_INT_TYPE answers.intCompiled = .ok (memory, r)) (works : ¬ r < 0)
    (strings : regApplyFunc parser.content.bytes YML_STRING_REGEX (insertKeysValues fuel) memory
      YML_STRING_TYPE answers.stringCompiled = .ok (memory', r')) (works' : ¬ r' < 0)
    (posted : answers.posted = true) :
    Returns fuel parser answers
      { parser with mutex := parser.mutex - 1 + 1, memory := memory', executed := true } 1

variable {parser parser' : Parser} {calls : Answers}

theorem execParser_returns (returned : execParser parser calls fuel = .ok (parser', r)) :
    Returns fuel parser calls parser' r := by
  unfold execParser at returned
  cases interrupted : calls.interrupted with
  | true =>
    rw [interrupted, if_pos rfl] at returned
    cases returned
    exact .interrupted interrupted
  | false =>
    rw [interrupted, if_neg Bool.false_ne_true] at returned
    by_cases taken : parser.mutex = 0
    · rw [if_pos taken] at returned
      cases returned
    · rw [if_neg taken] at returned
      dsimp only at returned
      by_cases executed : parser.executed = true
      · rw [if_pos executed] at returned
        cases returned
        exact .again interrupted executed
      · rw [if_neg executed] at returned
        cases ints : regApplyFunc parser.content.bytes YML_INT_REGEX (insertKeysValues fuel)
            parser.memory YML_INT_TYPE calls.intCompiled with
        | error fault =>
          rw [ints] at returned
          cases returned
        | ok outcome =>
          simp only [ints] at returned
          by_cases fails : outcome.2 < 0
          · rw [if_pos fails] at returned
            cases returned
            exact .intsFail interrupted _ _ ints fails
          · rw [if_neg fails] at returned
            cases strings : regApplyFunc parser.content.bytes YML_STRING_REGEX (insertKeysValues fuel)
                outcome.1 YML_STRING_TYPE calls.stringCompiled with
            | error fault =>
              rw [strings] at returned
              cases returned
            | ok outcome' =>
              simp only [strings] at returned
              by_cases fails' : outcome'.2 < 0
              · rw [if_pos fails'] at returned
                cases returned
                exact .stringsFail interrupted _ _ _ _ ints fails strings fails'
              · rw [if_neg fails'] at returned
                cases posted : calls.posted with
                | true =>
                  rw [posted, if_pos rfl] at returned
                  cases returned
                  exact .done (Bool.eq_false_of_not_eq_true executed) _ _ _ _ ints fails strings fails' posted
                | false =>
                  rw [posted, if_neg Bool.false_ne_true] at returned
                  cases returned
                  exact .unposted interrupted _ posted

/-- Of all returns behind the wait only the last one posts. -/
theorem execParser_mutex (ready : parser.mutex = 1)
    (returned : execParser parser calls fuel = .ok (parser', r)) :
    parser'.mutex = 1 ↔ GivesBack parser calls := by
  have left : parser.mutex - 1 = 0 := by rw [ready]
  have zero : ¬ parser.mutex - 1 = 1 := by rw [left]; exact zero_ne_one
  cases execParser_returns returned with
  | interrupted signal => exact iff_of_true ready (.inl signal)
  | again waited executed =>
    refine iff_of_false zero ?_
    rintro (signal | ⟨fresh, -⟩)
    · exact Bool.false_ne_true (waited.symm.trans signal)
    · exact Bool.false_ne_true (fresh.symm.trans executed)
  | intsFail waited memory r ints fails =>
    refine iff_of_false zero ?_
    rintro (signal | ⟨-, compiled, -, -, granted⟩)
    · exact Bool.false_ne_true (waited.symm.trans signal)
    · rcases regApplyFunc_returns intPattern intKind.running ints with ⟨rfl, -⟩ | ⟨-, refused⟩
      · exact absurd intKind.running (not_le.mpr fails)
      · exact refused ⟨compiled, (forall_insertions.mp granted).1⟩
  | stringsFail waited memory memory' r r' ints works strings fails =>
    refine iff_of_false zero ?_
    rintro (signal | ⟨-, -, compiled, -, granted⟩)
    · exact Bool.false_ne_true (waited.symm.trans signal)
    · rcases regApplyFunc_returns intPattern intKind.running ints with ⟨-, -, -, supply⟩ | ⟨failed, -⟩
      · rcases regApplyFunc_returns stringPattern stringKind.running strings with ⟨rfl, -⟩ | ⟨-, refused⟩
        · exact absurd stringKind.running (not_le.mpr fails)
        · refine refused ⟨compiled, fun k small => ?_⟩
          rw [supply]
          exact (forall_insertions.mp granted).2 k small
      · exact works failed
  | unposted waited memory lost =>
    refine iff_of_false zero ?_
    rintro (signal | ⟨-, -, -, posted, -⟩)
    · exact Bool.false_ne_true (waited.symm.trans signal)
    · exact Bool.false_ne_true (lost.symm.trans posted)
  | done fresh memory memory' r r' ints works strings works' posted =>
    refine iff_of_true (show parser.mutex - 1 + 1 = 1 by rw [left]) (.inr ?_)
    rcases regApplyFunc_returns intPattern intKind.running ints with
      ⟨-, intCompiled, intsGranted, supply⟩ | ⟨failed, -⟩
    · rcases regApplyFunc_returns stringPattern stringKind.running strings with
        ⟨-, stringCompiled, stringsGranted, -⟩ | ⟨failed, -⟩
      · refine ⟨fresh, intCompiled, stringCompiled, posted, forall_insertions.mpr ⟨intsGranted, ?_⟩⟩
        exact fun k small => supply k ▸ stringsGranted k small
      · exact absurd failed works'
    · exact absurd failed works

/-! ## Sequences of calls -/

inductive ParserCall where
  | exec (answers : Answers)
  | get (key : List Byte)

/-- One call on a parser, if it returns. -/
def call (fuel : Nat) (parser : Parser) : ParserCall → Option Parser
  | .exec answers => (execParser parser answers fuel).toOption.map Prod.fst
  | .get key => (get parser.memory.map key fuel).toOption.map fun _ => parser

/-- The condition on a call and on the parser that it is made on. -/
def ParserCall.GivesBack (parser : Parser) : ParserCall → Prop
  | .exec answers => Yml.GivesBack parser answers
  | .get _ => True

instance (parser : Parser) : (event : ParserCall) → Decidable (event.GivesBack parser)
  | .exec answers => inferInstanceAs (Decidable (Yml.GivesBack parser answers))
  | .get _ => .isTrue trivial

theorem call_mutex {event : ParserCall} (ready : parser.mutex = 1)
    (returned : call fuel parser event = some parser') :
    parser'.mutex = 1 ↔ event.GivesBack parser := by
  cases event with
  | exec answers =>
    simp only [call] at returned
    cases executed : execParser parser answers fuel with
    | error fault =>
      rw [executed] at returned
      cases returned
    | ok outcome =>
      obtain ⟨after, r⟩ := outcome
      rw [executed] at returned
      cases returned
      exact execParser_mutex ready executed
  | get key =>
    simp only [call] at returned
    cases found : get parser.memory.map key fuel with
    | error fault =>
      rw [found] at returned
      cases returned
    | ok outcome =>
      rw [found] at returned
      cases returned
      exact iff_of_true ready trivial

/-- The mutex is free after every call of a sequence. -/
def AlwaysFree (fuel : Nat) (parser : Parser) (events : List ParserCall) : Prop :=
  ∀ past later reached, events = past ++ later → run (call fuel) parser past = some reached →
    reached.mutex = 1

theorem alwaysFree_iff_along {events : List ParserCall} {final : Parser} (ready : parser.mutex = 1)
    (ran : run (call fuel) parser events = some final) :
    AlwaysFree fuel parser events ↔
      Along (call fuel) (fun parser event => event.GivesBack parser) parser events := by
  induction events generalizing parser with
  | nil =>
    refine iff_of_true ?_ trivial
    intro past later reached split ran
    obtain ⟨rfl, -⟩ := List.append_eq_nil_iff.mp split.symm
    cases ran
    exact ready
  | cons event events ih =>
    obtain ⟨middle, first, rest⟩ := run_cons_eq_some.mp ran
    have step := call_mutex ready first
    constructor
    · intro free
      have here : middle.mutex = 1 := free [event] events middle rfl (run_cons_eq_some.mpr ⟨middle, first, rfl⟩)
      refine ⟨step.mp here, fun next reached => ?_⟩
      obtain rfl : middle = next := Option.some.inj (first.symm.trans reached)
      refine (ih here rest).mp fun past later reached split ran => ?_
      exact free (event :: past) later reached (by rw [split]; rfl)
        (run_cons_eq_some.mpr ⟨middle, first, ran⟩)
    · intro along past later reached split ran
      cases past with
      | nil =>
        cases ran
        exact ready
      | cons other past =>
        obtain ⟨rfl, tails⟩ := List.cons.inj split
        obtain ⟨next, again, ran⟩ := run_cons_eq_some.mp ran
        obtain rfl : middle = next := Option.some.inj (first.symm.trans again)
        exact (ih (step.mpr along.1) rest).mpr (along.2 middle first) past later reached tails ran

/-- A parser is given back after every call of a sequence exactly when each execution
of it is interrupted at the wait, or is the first and finds all that it asks for: any
other return of `exec_parser` keeps the mutex. -/
theorem mutex_given_back_iff (path : Option (List Byte)) (startup : Startup) (cells : Heap Elem)
    (blocks : Heap (List Byte)) (supply : Nat → Blocks) (parser final : Parser) (fuel : Nat)
    (events : List ParserCall) (created : initYmlParser path startup cells blocks supply = .ok parser)
    (ran : run (call fuel) parser events = some final) :
    AlwaysFree fuel parser events ↔
      Along (call fuel) (fun parser event => event.GivesBack parser) parser events :=
  alwaysFree_iff_along (initYmlParser_ok created).1 ran

/-- The parser of a file with one setting. -/
def oneSetting : Parser := freshParser ⟨bytes "a: 1\n", by decide +kernel, by decide +kernel⟩

theorem oneSetting_created : initYmlParser (some (bytes "c.yml")) (.granted (bytes "a: 1\n") fun _ => none)
    (fun _ => none) (fun _ => none) freshMemory.supply = .ok oneSetting :=
  freshParser_created (bytes "c.yml") oneSetting.content

theorem mutex_given_back_iff_once : AlwaysFree 2 oneSetting
    [.get (bytes "a"), .exec { Answers.granted with interrupted := true }, .exec .granted, .get (bytes "a")] := by
  obtain ⟨final, ran⟩ := Option.isSome_iff_exists.mp (show (run (call 2) oneSetting
    [.get (bytes "a"), .exec { Answers.granted with interrupted := true }, .exec .granted,
      .get (bytes "a")]).isSome = true by decide +kernel)
  exact (mutex_given_back_iff _ _ _ _ _ _ final 2 _ oneSetting_created ran).mpr (by decide +kernel)

/-- A second execution is refused with the mutex taken, so that the next wait blocks. -/
theorem second_execution_keeps_mutex :
    initYmlParser (some (bytes "c.yml")) (.granted (bytes "a: 1\n") fun _ => none)
        (fun _ => none) (fun _ => none) freshMemory.supply = .ok oneSetting ∧
      (run (call 2) oneSetting [.exec .granted, .exec .granted]).map Parser.mutex = some 0 ∧
      ¬ AlwaysFree 2 oneSetting [.exec .granted, .exec .granted] := by
  have kept : (run (call 2) oneSetting [.exec .granted, .exec .granted]).map Parser.mutex = some 0 := by
    decide +kernel
  refine ⟨oneSetting_created, kept, fun free => ?_⟩
  obtain ⟨final, ran, taken⟩ := Option.map_eq_some_iff.mp kept
  have given := free _ [] final (List.append_nil _).symm ran
  rw [taken] at given
  cases given

end LocalServer.Yml
