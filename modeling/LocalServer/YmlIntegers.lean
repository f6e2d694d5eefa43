import LocalServer.YmlHeads

/-! The settings that are read into an `int`. A cell of the map has a size and no type,
and `get` copies as many bytes as the cell says. The integers of a text are inserted
before its strings, so that a string is found only where there is no integer. -/
namespace LocalServer.Yml
open LinkedList Regex
open CList (Fault)

variable {map map' : HashMap} {entries : List Entry} {memory memory' : Memory} {key value : List Byte}
  {answers : Blocks} {fuel n : Nat} {r acc acc' : Int}

/-! ## What the passes leave -/

/-- The key and the value of an entry. -/
def Entry.pair (entry : Entry) : List Byte × List Byte := (entry.key, entry.value)

/-- An insertion that found memory linked its cell and filled it. -/
theorem hashmapInsert_granted (granted : Granted answers)
    (inserted : hashmapInsert map key value answers fuel = .ok (map', r)) :
    ∃ cell keyAddr valueAddr linked, answers.cell = some cell ∧ answers.key = some keyAddr ∧
      answers.value = some valueAddr ∧ link map (bucket key) (some cell) fuel = .ok linked ∧
      map' = linked.fill cell keyAddr valueAddr key value := by
  obtain ⟨cell, cellFound⟩ := Option.isSome_iff_exists.mp granted.1
  obtain ⟨keyAddr, keyFound⟩ := Option.isSome_iff_exists.mp granted.2.1
  obtain ⟨valueAddr, valueFound⟩ := Option.isSome_iff_exists.mp granted.2.2
  rw [hashmapInsert, cellFound] at inserted
  cases linked : link map (bucket key) (some cell) fuel with
  | error fault =>
    rw [linked] at inserted
    cases inserted
  | ok map₁ =>
    simp only [linked, keyFound, valueFound, Except.ok.injEq, Prod.mk.injEq] at inserted
    exact ⟨cell, keyAddr, valueAddr, map₁, cellFound, keyFound, valueFound, linked, inserted.1.symm⟩

/-- What `malloc` returns later is not in use after an insertion either. -/
theorem Fresh.insert (fresh : Fresh memory) {cell keyAddr valueAddr : Addr} {linked : HashMap}
    (cellFound : (memory.supply 0).cell = some cell) (keyFound : (memory.supply 0).key = some keyAddr)
    (valueFound : (memory.supply 0).value = some valueAddr)
    (linking : link memory.map (bucket key) (some cell) fuel = .ok linked) (value : List Byte) :
    Fresh ⟨linked.fill cell keyAddr valueAddr key value, fun n => memory.supply (n + 1)⟩ := by
  obtain ⟨-, -, blocks, live, -⟩ := link_hooks linking
  have blocksFree : ∀ addr, addr ≠ keyAddr → addr ≠ valueAddr → memory.map.blocks addr = none →
      (linked.fill cell keyAddr valueAddr key value).blocks addr = none := by
    intro addr notKey notValue free
    refine (Heap.write_of_ne notValue).trans ((Heap.write_of_ne notKey).trans ?_)
    rw [blocks, free]
  refine ⟨fun n addr member => ?_, fun n addr member => ?_, fun n addr member => ?_,
    fun m n addr other => fresh.cells _ _ addr (by omega), fun m n addr other => fresh.keys _ _ addr (by omega),
    fun m n addr other => fresh.values _ _ addr (by omega), fun m n addr => fresh.apart _ _ addr⟩
  · have other : addr ≠ cell := fun same =>
      fresh.cells (n + 1) 0 addr (by omega) member (same ▸ cellFound)
    exact (Heap.write_of_ne other).trans ((live addr).mpr (fresh.cell _ addr member))
  · exact blocksFree addr (fun same => fresh.keys (n + 1) 0 addr (by omega) member (same ▸ keyFound))
      (fun same => fresh.apart (n + 1) 0 addr member (same ▸ valueFound)) (fresh.key _ addr member)
  · exact blocksFree addr (fun same => fresh.apart 0 (n + 1) addr (same ▸ keyFound) member)
      (fun same => fresh.values (n + 1) 0 addr (by omega) member (same ▸ valueFound)) (fresh.value _ addr member)

/-- A pass that keeps its type has inserted all that it reads. -/
theorem pass_grows {pattern : Regex Byte} {quotes : Nat} {text : List Byte}
    (shape : ValuePattern pattern quotes) (running : 0 ≤ acc)
    (most : (readings pattern quotes acc text).length ≤ n) (grown : Grown memory.map entries)
    (fresh : Fresh memory)
    (returned : applyMatches (keyed pattern) (insertKeysValues fuel) n text memory acc =
      .ok (memory', acc')) (works : ¬ acc' < 0) :
    ∃ later, Grown memory'.map (entries ++ later) ∧ Fresh memory' ∧
      later.map Entry.pair = readings pattern quotes acc text := by
  refine pass_induction (motive := fun read memory memory' acc' =>
      ∀ entries, Grown memory.map entries → Fresh memory → ¬ acc' < 0 →
        ∃ later, Grown memory'.map (entries ++ later) ∧ Fresh memory' ∧ later.map Entry.pair = read)
    ?_ ?_ ?_ shape running most returned entries grown fresh works
  · intro memory entries grown fresh _
    exact ⟨[], by rwa [List.append_nil], fresh, rfl⟩
  · intro first rest memory map memory' acc' noNul granted inserted ih entries grown fresh works
    obtain ⟨cell, keyAddr, valueAddr, linked, cellFound, keyFound, valueFound, linking, rfl⟩ :=
      hashmapInsert_granted granted inserted
    have grown' := grown_insert grown noNul first.2 (fresh.cell 0 cell cellFound) (fresh.key 0 keyAddr keyFound)
      (fresh.value 0 valueAddr valueFound)
      (fun same => fresh.apart 0 0 keyAddr keyFound (same ▸ valueFound)) linking
    have fresh' := fresh.insert cellFound keyFound valueFound linking first.2
    obtain ⟨later, grownAll, freshAll, read⟩ := ih _ grown' fresh' works
    refine ⟨⟨cell, first.1, first.2⟩ :: later, by simpa using grownAll, freshAll, ?_⟩
    rw [List.map_cons, read]
    rfl
  · intro first rest memory memory' _ entries _ _ works
    exact absurd (by decide) works

/-- `exec_parser` that returns 1 has inserted the integers, and then the strings. -/
theorem execParser_grows {parser after : Parser} {calls : Answers} (grown : Grown parser.memory.map [])
    (fresh : Fresh parser.memory) (executed : execParser parser calls fuel = .ok (after, 1)) :
    ∃ entries, Grown after.memory.map entries ∧
      entries.map Entry.pair = ints parser.content.bytes ++ strings parser.content.bytes := by
  generalize code : (1 : Int) = r at executed
  cases execParser_returns executed with
  | interrupted => exact absurd code (by decide)
  | again => exact absurd code (by decide)
  | intsFail => exact absurd code (by decide)
  | stringsFail => exact absurd code (by decide)
  | unposted => exact absurd code (by decide)
  | done notYet memory memory' r r' intPass works stringPass works' posted =>
    rcases regApplyFunc_returns intPattern intKind.running intPass with ⟨rfl, compiled, -⟩ | ⟨failed, -⟩
    · rcases regApplyFunc_returns stringPattern stringKind.running stringPass with
        ⟨rfl, compiled', -⟩ | ⟨failed, -⟩
      · rw [compiled] at intPass
        rw [compiled'] at stringPass
        obtain ⟨numbers, grownInts, freshInts, readInts⟩ := pass_grows intPattern intKind.running
          (readings_length intPattern.solid _) grown fresh intPass works
        obtain ⟨words, grownAll, -, readStrings⟩ := pass_grows stringPattern stringKind.running
          (readings_length stringPattern.solid _) grownInts freshInts stringPass works'
        refine ⟨_, grownAll, ?_⟩
        rw [List.nil_append, List.map_append, readInts, readStrings]
        rfl
      · exact absurd failed works'
    · exact absurd failed works

/-! ## What `get` copies -/

/-- A walk that has found something finds it with more room too. -/
theorem find_more {start : Option Addr} {found : Option Elem} {more : Nat}
    (walked : find map key fuel start = .ok found) (room : fuel ≤ more) :
    find map key more start = .ok found := by
  induction fuel generalizing start more with
  | zero => cases walked
  | succ fuel ih =>
    obtain ⟨more, rfl⟩ : ∃ n, more = n + 1 := ⟨more - 1, by omega⟩
    cases start with
    | none => exact walked
    | some addr =>
      rw [find] at walked ⊢
      cases here : map.cells addr with
      | none =>
        simp only [here] at walked
        cases walked
      | some elem =>
        simp only [here] at walked ⊢
        cases block : elem.key.bind map.blocks with
        | none =>
          simp only [block] at walked
          cases walked
        | some bytes =>
          simp only [block] at walked ⊢
          split at walked
          · next same => rw [if_pos same, walked]
          · next other =>
            rw [if_neg other]
            exact ih walked (Nat.le_of_succ_le_succ room)

/-- What a walk finds is a live cell with the key. -/
theorem find_live {start : Option Addr} {elem : Elem} (walked : find map key fuel start = .ok (some elem)) :
    ∃ addr block, map.cells addr = some elem ∧ elem.key.bind map.blocks = some block ∧ cstr block = key := by
  induction fuel generalizing start with
  | zero => cases walked
  | succ fuel ih =>
    cases start with
    | none => cases walked
    | some addr =>
      rw [find] at walked
      cases here : map.cells addr with
      | none =>
        simp only [here] at walked
        cases walked
      | some other =>
        simp only [here] at walked
        cases block : other.key.bind map.blocks with
        | none =>
          simp only [block] at walked
          cases walked
        | some bytes =>
          simp only [block] at walked
          split at walked
          · next same =>
            cases walked
            exact ⟨addr, bytes, here, block, same⟩
          · exact ih walked

/-- What `get` returns does not depend on the room for its walk. -/
theorem get_unique {more : Nat} {first second : Int × List Byte} (got : get map key fuel = .ok first)
    (also : get map key more = .ok second) : first = second := by
  have walks : ∀ {n m : Nat} {result : Int × List Byte}, get map key n = .ok result → n ≤ m →
      get map key m = .ok result := by
    intro n m result got room
    rw [get] at got ⊢
    cases walked : find map key n (map.elems (bucket key)) with
    | error fault =>
      rw [walked] at got
      cases got
    | ok found =>
      rw [walked] at got
      rw [find_more walked room]
      exact got
  have same := (walks got (Nat.le_max_left fuel more)).symm.trans (walks also (Nat.le_max_right fuel more))
  exact Except.ok.inj same

theorem firstValue_pairs (key : List Byte) (entries : List Entry) :
    firstValue key (entries.map Entry.pair) = (entries.find? (·.key = key)).map Entry.value := by
  rw [firstValue, List.find?_map, Option.map_map]
  rfl

/-- A key that was inserted is found, with its first value. -/
theorem Grown.get_inserted (grown : Grown map entries) {entry : Entry} (member : entry ∈ entries) :
    ∃ fuel copied, get map entry.key fuel = .ok (1, copied) ∧
      firstValue entry.key (entries.map Entry.pair) = some copied := by
  obtain ⟨chain, chained⟩ := grown.chains _ ⟨entry, member, rfl⟩
  obtain ⟨found, walked, which⟩ := find_entries entry.key chained.path
    (fun other inside => grown.stored other (chained.among other inside))
    (fun other inside => grown.noNul other (chained.among other inside)) (Nat.lt_succ_self _)
  rw [find_own Entry.key, chained.own, ← find_own Entry.key] at which
  cases first : entries.find? (·.key = entry.key) with
  | none => exact absurd (decide_eq_true rfl) (List.find?_eq_none.mp first entry member)
  | some other =>
    rw [first] at which
    obtain ⟨elem, valueAddr, rfl, value, size, block⟩ := which
    have read : elem.value.bind map.blocks = some other.value := by
      rw [value]
      exact block
    refine ⟨chain.length + 1, other.value, ?_, by rw [firstValue_pairs, first]; rfl⟩
    simp only [get, walked, read, size, List.take_length]

/-- `get` finds the first value that was inserted under the key, and nothing else. -/
theorem Grown.get_iff (grown : Grown map entries) (key copied : List Byte) :
    (∃ fuel, get map key fuel = .ok (1, copied)) ↔
      firstValue key (entries.map Entry.pair) = some copied := by
  constructor
  · rintro ⟨fuel, got⟩
    obtain ⟨entry, member, rfl⟩ : ∃ entry ∈ entries, entry.key = key := by
      rw [get] at got
      cases walked : find map key fuel (map.elems (bucket key)) with
      | error fault =>
        rw [walked] at got
        cases got
      | ok found =>
        cases found with
        | none =>
          rw [walked] at got
          cases got
        | some elem =>
          obtain ⟨addr, block, live, keyBlock, same⟩ := find_live walked
          obtain ⟨entry, member, rfl⟩ := List.mem_map.mp (grown.live addr (by simp [live]))
          obtain ⟨keyAddr, valueAddr, next, cell, stored, -⟩ := grown.stored entry member
          obtain rfl := Option.some.inj (live.symm.trans cell)
          have read : entry.key ++ [0] = block := Option.some.inj (stored.symm.trans keyBlock)
          rw [← read, cstr_append_zero (grown.noNul entry member)] at same
          exact ⟨entry, member, same⟩
    obtain ⟨_, value, found, first⟩ := grown.get_inserted member
    rw [first, (Prod.mk.inj (get_unique found got)).2]
  · intro first
    rw [firstValue_pairs] at first
    obtain ⟨entry, found, rfl⟩ := Option.map_eq_some_iff.mp first
    obtain rfl : entry.key = key := by simpa using List.find?_some found
    obtain ⟨fuel, value, got, first'⟩ := grown.get_inserted (List.mem_of_find?_eq_some found)
    rw [firstValue_pairs, found] at first'
    exact ⟨fuel, by rw [got, ← Option.some.inj first']⟩

/-! ## Integers and strings -/

/-- The integer settings of a text, each with its `int`. -/
def integers (text : List Byte) : List (List Byte × Int) :=
  (words (bare intValue) text).map fun word => (word.takeWhile isKey, atoi (written word))

theorem ints_eq (text : List Byte) :
    ints text = (integers text).map fun (key, number) => (key, intBytes number) := by
  rw [ints, readings, integers, List.map_map]
  refine List.map_congr_left fun word _ => ?_
  simp [reading, convert, unquoted]

/-- Each call of `get` for the key that returns 1 has copied one `int`, that of an
integer setting of the key. -/
def CopiesInt (map : HashMap) (text key : List Byte) : Prop :=
  ∀ fuel copied, get map key fuel = .ok (1, copied) →
    copied.length = SIZEOF_INT ∧ ∃ number, (key, number) ∈ integers text ∧ copied = intBytes number

theorem firstValue_isSome {key : List Byte} {pairs : List (List Byte × List Byte)} :
    key ∈ pairs.map Prod.fst ↔ ∃ value, firstValue key pairs = some value := by
  rw [← Option.isSome_iff_exists, firstValue, Option.isSome_map, List.find?_isSome]
  simp

theorem mem_of_firstValue {key value : List Byte} {pairs : List (List Byte × List Byte)}
    (first : firstValue key pairs = some value) : (key, value) ∈ pairs := by
  obtain ⟨pair, found, rfl⟩ := Option.map_eq_some_iff.mp first
  obtain rfl : pair.1 = key := by simpa using List.find?_some found
  exact List.mem_of_find?_eq_some found

/-- A key that is read into an `int`, as `slots`, `response_limit`, `daemon`,
`res_timeout` and `req_timeout` are, is read as an integer exactly when the text has
an integer for the key or no string. Of a string the whole text and its terminator
are copied, over what lies behind the variable. -/
theorem int_is_copied_iff (path : Option (List Byte)) (startup : Startup) (blocks : Heap (List Byte))
    (supply : Nat → Blocks) (parser after : Parser) (calls : Answers) (fuel : Nat) (key : List Byte)
    (created : initYmlParser path startup Heap.empty blocks supply = .ok parser)
    (fresh : Fresh parser.memory) (executed : execParser parser calls fuel = .ok (after, 1)) :
    CopiesInt after.memory.map parser.content.bytes key ↔
      key ∈ (integers parser.content.bytes).map Prod.fst ∨
        key ∉ (strings parser.content.bytes).map Prod.fst := by
  obtain ⟨-, -, name, file, elems, garbage, read, -, -, -, -, -, -, memory⟩ := initYmlParser_ok created
  have bare : Grown parser.memory.map [] := grown_bare fun addr => by rw [memory]; rfl
  obtain ⟨entries, grown, content⟩ := execParser_grows bare fresh executed
  have finds := fun copied => grown.get_iff key copied
  rw [content] at finds
  generalize parser.content.bytes = text at finds ⊢
  have keys : (integers text).map Prod.fst = (ints text).map Prod.fst := by
    rw [ints_eq, List.map_map]
    rfl
  rw [keys]
  constructor
  · intro copies
    by_contra neither
    rw [not_or, not_not] at neither
    obtain ⟨noInt, aString⟩ := neither
    obtain ⟨value, found⟩ := firstValue_isSome.mp aString
    have none : firstValue key (ints text) = none := by
      rw [Option.eq_none_iff_forall_ne_some]
      exact fun value first => noInt (firstValue_isSome.mpr ⟨value, first⟩)
    obtain ⟨fuel, got⟩ := (finds value).mpr (by rw [firstValue_append, none, found]; rfl)
    obtain ⟨-, number, member, -⟩ := copies fuel value got
    exact noInt (keys ▸ List.mem_map_of_mem member)
  · intro either fuel copied got
    have first := (finds copied).mp ⟨fuel, got⟩
    rw [firstValue_append] at first
    have number : firstValue key (ints text) = some copied := by
      cases isInt : firstValue key (ints text) with
      | some value =>
        rw [isInt] at first
        exact first
      | none =>
        rw [isInt] at first
        refine absurd (firstValue_isSome.mpr ⟨copied, first⟩) (either.resolve_left fun member => ?_)
        obtain ⟨value, found⟩ := firstValue_isSome.mp member
        rw [isInt] at found
        cases found
    have member := mem_of_firstValue number
    rw [ints_eq] at member
    obtain ⟨⟨_, n⟩, inText, same⟩ := List.mem_map.mp member
    obtain ⟨rfl, rfl⟩ := Prod.mk.inj same
    exact ⟨ResponsePipe.toBytes_length .., n, inText, rfl⟩

/-- A string for the key stands before its integer, and is not found. -/
theorem int_is_copied_iff_both : ∃ parser after : Parser,
    parser.content.bytes = bytes "slots: \"all\"\nslots: 256\n" ∧
      execParser parser .granted 25 = .ok (after, 1) ∧
      CopiesInt after.memory.map parser.content.bytes (bytes "slots") := by
  let text : CString := ⟨bytes "slots: \"all\"\nslots: 256\n", by decide +kernel, by decide +kernel⟩
  have fresh : Fresh (freshParser text).memory := plenty_freshMemory.fresh
  obtain ⟨after, executed, -⟩ := execParser_reads
    (show ∀ i, (freshParser text).memory.map.elems i = none from fun _ => rfl) plenty_freshMemory
    Nat.one_pos rfl (show text.bytes.length ≤ 25 by decide +kernel)
  refine ⟨freshParser text, after, rfl, executed, ?_⟩
  rw [int_is_copied_iff _ _ _ _ _ _ _ _ _ (freshParser_created (bytes "c.yml") text) fresh executed]
  decide +kernel

/-- `slots` is a string of nine characters: ten bytes go into the `int`. -/
theorem string_is_copied_into_int : ∃ parser after : Parser,
    initYmlParser (some (bytes "c.yml")) (.granted (bytes "slots: \"unlimited\"\n") fun _ => none)
        Heap.empty Heap.empty freshMemory.supply = .ok parser ∧ Fresh parser.memory ∧
      execParser parser .granted 20 = .ok (after, 1) ∧
      get after.memory.map (bytes "slots") 20 = .ok (1, bytes "unlimited" ++ [0]) ∧
      ¬ CopiesInt after.memory.map parser.content.bytes (bytes "slots") := by
  let text : CString := ⟨bytes "slots: \"unlimited\"\n", by decide +kernel, by decide +kernel⟩
  obtain ⟨after, executed, stands⟩ := execParser_reads
    (show ∀ i, (freshParser text).memory.map.elems i = none from fun _ => rfl) plenty_freshMemory
    Nat.one_pos rfl (show text.bytes.length ≤ 20 by decide +kernel)
  have got : get after.memory.map (bytes "slots") 20 = .ok (1, bytes "unlimited" ++ [0]) := by
    rw [get_finds stands (show (ints text.bytes ++ strings text.bytes).length < 20 by decide +kernel)]
    decide +kernel
  refine ⟨freshParser text, after, freshParser_created (bytes "c.yml") text, plenty_freshMemory.fresh,
    executed, got, fun copies => ?_⟩
  have four := (copies 20 _ got).1
  revert four
  decide +kernel

end LocalServer.Yml
