import LocalServer.Configuration

/-! The chains of the map as a walk along them sees them. Insertions that succeed
only ever append, so that a key that comes again stays behind its first entry; an
insertion that fails leaves behind a link to what it gave back. -/
namespace LocalServer.Yml
open LinkedList
open CList (Fault)

/-- The keys along a chain, with as many bytes of each value as its cell says. -/
def readChain (map : HashMap) : Nat → Option Addr → Except Fault (List (List Byte × List Byte))
  | 0, _ => .error .endless
  | _ + 1, none => .ok []
  | fuel + 1, some addr =>
    match map.cells addr with
    | none => .error .undefined
    | some elem =>
      match elem.key.bind map.blocks, elem.value.bind map.blocks with
      | some key, some value =>
        (readChain map fuel elem.next).map ((cstr key, value.take elem.size) :: ·)
      | _, _ => .error .undefined

variable {map map' : HashMap} {chains : Fin MAP_SIZE → List Entry} {entries : List Entry}
  {start stop : Option Addr} {fuel : Nat} {content : List (List Byte × List Byte)}

/-- A walk passes the entries of a path and goes on where the path ends. -/
theorem readChain_path (linked : Path Elem.next map.cells start (entries.map Entry.cell) stop)
    (stored : ∀ entry ∈ entries, Stored map entry) (noNul : ∀ entry ∈ entries, 0 ∉ entry.key) :
    readChain map (entries.length + fuel) start = (readChain map fuel stop).map
      (entries.map (fun entry => (entry.key, entry.value)) ++ ·) := by
  induction entries generalizing start with
  | nil =>
    obtain rfl : start = stop := linked
    rw [List.length_nil, Nat.zero_add]
    cases readChain map fuel start <;> rfl
  | cons entry entries ih =>
    obtain ⟨rfl, elem, here, rest⟩ := linked
    obtain ⟨keyAddr, valueAddr, next, cell, keyBlock, valueBlock⟩ := stored entry (by simp)
    obtain rfl : elem = _ := Option.some.inj (here.symm.trans cell)
    have key : (some keyAddr).bind map.blocks = some (entry.key ++ [0]) := keyBlock
    have value : (some valueAddr).bind map.blocks = some entry.value := valueBlock
    have later := ih rest (fun entry member => stored entry (by simp [member]))
      (fun entry member => noNul entry (by simp [member]))
    rw [List.length_cons, Nat.add_right_comm]
    simp only [readChain, here, key, value, cstr_append_zero (noNul entry (by simp)) [],
      List.take_length, later]
    cases readChain map fuel stop <;> rfl

/-- Each chain of a well-formed map ends, and holds what belongs to it. -/
theorem readChain_stands (stands : StandsFor map content) (enough : content.length < fuel)
    (i : Fin MAP_SIZE) :
    readChain map fuel (map.elems i) = .ok (content.filter fun pair => bucket pair.1 = i) := by
  obtain ⟨chains, rep, held⟩ := stands
  have short := (chain_length (held i)).trans_lt enough
  obtain ⟨spare, rfl⟩ : ∃ spare, fuel = (chains i).length + (spare + 1) :=
    ⟨fuel - (chains i).length - 1, by omega⟩
  rw [readChain_path (rep.path i) (rep.stored i) fun entry member => (rep.home i entry member).2, held]
  exact congrArg Except.ok (List.append_nil _)

/-! ## Insertions that succeed -/

/-- Some calls of `hashmap_insert` in turn, each with its key and the bytes of its
value, and what they return. -/
def insertAll (fuel : Nat) : Memory → List (List Byte × List Byte) → Except Fault (Memory × List Int)
  | memory, [] => .ok (memory, [])
  | memory, (key, value) :: calls =>
    match hashmapInsert memory.map key value (memory.supply 0) fuel with
    | .error fault => .error fault
    | .ok (map, r) =>
      (insertAll fuel ⟨map, fun n => memory.supply (n + 1)⟩ calls).map fun (memory, returns) =>
        (memory, r :: returns)

variable {memory : Memory} {calls : List (List Byte × List Byte)}

/-- Every call appends and returns 1. -/
theorem insertAll_appends (plenty : Plenty memory) (stands : StandsFor memory.map content)
    (noNul : ∀ call ∈ calls, 0 ∉ call.1) (enough : content.length + calls.length ≤ fuel) :
    ∃ memory', insertAll fuel memory calls = .ok (memory', List.replicate calls.length 1) ∧
      StandsFor memory'.map (content ++ calls) ∧ Plenty memory' := by
  induction calls generalizing memory content with
  | nil => exact ⟨memory, rfl, by rwa [List.append_nil], plenty⟩
  | cons call calls ih =>
    obtain ⟨key, value⟩ := call
    rw [List.length_cons] at enough
    obtain ⟨map, inserted, stands', plenty'⟩ :=
      plenty.insert stands (noNul _ List.mem_cons_self) value (show content.length ≤ fuel by omega)
    obtain ⟨memory', rest, stands'', plenty''⟩ := ih plenty' stands'
      (fun call member => noNul call (List.mem_cons_of_mem _ member))
      (show (content ++ [(key, value)]).length + calls.length ≤ fuel by
        rw [List.length_append, List.length_singleton]
        omega)
    refine ⟨memory', ?_, by simpa using stands'', plenty''⟩
    simp only [insertAll, inserted, rest]
    rfl

/-- Insertions as the documentation has them: an existing key is replaced. -/
structure Replaces (calls : List (List Byte × List Byte)) (returns : List Int) (map : HashMap)
    (fuel : Nat) : Prop where
  distinct : ∀ i, ∃ chain, readChain map fuel (map.elems i) = .ok chain ∧ (chain.map Prod.fst).Nodup
  returned : ∀ before call after, calls = before ++ call :: after →
    returns[before.length]? = some (if call.1 ∈ before.map Prod.fst then 0 else 1)
  found : ∀ key value, calls.reverse.find? (·.1 = key) = some (key, value) →
    get map key fuel = .ok (1, value)

/-- The map after some insertions into an empty one, as `get` and a walk see it. -/
theorem insertAll_empty (plenty : Plenty memory) (empty : ∀ i, memory.map.elems i = none)
    (noNul : ∀ call ∈ calls, 0 ∉ call.1) (enough : calls.length < fuel) :
    ∃ memory', insertAll fuel memory calls = .ok (memory', List.replicate calls.length 1) ∧
      (∀ i, readChain memory'.map fuel (memory'.map.elems i) =
        .ok (calls.filter fun pair => bucket pair.1 = i)) ∧
      ∀ key, get memory'.map key fuel = .ok (match calls.find? (·.1 = key) with
        | none => (0, [])
        | some pair => (1, pair.2)) := by
  obtain ⟨memory', inserted, stands, -⟩ := insertAll_appends plenty (standsFor_empty empty) noNul
    (show [].length + calls.length ≤ fuel by rw [List.length_nil]; omega)
  rw [List.nil_append] at stands
  exact ⟨memory', inserted, readChain_stands stands enough, get_finds stands enough⟩

/-- All entries of a key are in the chain of that key. -/
theorem nodup_of_chains
    (distinct : ∀ i, ((calls.filter fun pair => bucket pair.1 = i).map Prod.fst).Nodup) :
    (calls.map Prod.fst).Nodup := by
  induction calls with
  | nil => exact List.nodup_nil
  | cons call calls ih =>
    rw [List.map_cons, List.nodup_cons]
    refine ⟨fun again => ?_, ih fun i => ?_⟩
    · obtain ⟨other, member, same⟩ := List.mem_map.mp again
      have chain := distinct (bucket call.1)
      rw [List.filter_cons_of_pos (by simp), List.map_cons, List.nodup_cons] at chain
      exact chain.1 (List.mem_map.mpr ⟨other, List.mem_filter.mpr ⟨member, by simp [same]⟩, same⟩)
    · have sub : (calls.filter fun pair => bucket pair.1 = i).Sublist
          ((call :: calls).filter fun pair => bucket pair.1 = i) :=
        (List.sublist_cons_self call calls).filter _
      exact (distinct i).sublist (sub.map Prod.fst)

/-- Among distinct keys the first entry of a key is the last. -/
theorem find_reverse (distinct : (calls.map Prod.fst).Nodup) (key : List Byte) :
    calls.reverse.find? (·.1 = key) = calls.find? (·.1 = key) := by
  cases first : calls.find? (·.1 = key) with
  | none =>
    rw [List.find?_eq_none] at first ⊢
    exact fun pair member => first pair (List.mem_reverse.mp member)
  | some pair =>
    have found : pair.1 = key := by simpa using List.find?_some first
    have member := List.mem_of_find?_eq_some first
    cases last : calls.reverse.find? (·.1 = key) with
    | none =>
      have nowhere := List.find?_eq_none.mp last pair (List.mem_reverse.mpr member)
      exact absurd (decide_eq_true found) nowhere
    | some other =>
      have again : other.1 = key := by simpa using List.find?_some last
      have same := again.trans found.symm
      have among := List.mem_reverse.mp (List.mem_of_find?_eq_some last)
      rw [List.inj_on_of_nodup_map distinct among member same]

/-- An existing key is never replaced: insertions do what the documentation says
exactly when no key comes twice. -/
theorem insertions_replace_iff (calls : List (List Byte × List Byte)) (memory : Memory) (fuel : Nat)
    (empty : ∀ i, memory.map.elems i = none) (plenty : Plenty memory)
    (noNul : ∀ call ∈ calls, 0 ∉ call.1) (enough : calls.length < fuel) :
    ∃ memory' returns, insertAll fuel memory calls = .ok (memory', returns) ∧
      (Replaces calls returns memory'.map fuel ↔ (calls.map Prod.fst).Nodup) := by
  obtain ⟨memory', inserted, walks, finds⟩ := insertAll_empty plenty empty noNul enough
  refine ⟨memory', _, inserted, fun replaces => nodup_of_chains fun i => ?_, fun distinct => ?_⟩
  · obtain ⟨chain, walked, once⟩ := replaces.distinct i
    rw [walks] at walked
    rw [Except.ok.inj walked]
    exact once
  · refine ⟨fun i => ⟨_, walks i, ?_⟩, fun before call after split => ?_, fun key value last => ?_⟩
    · exact distinct.sublist (List.filter_sublist.map Prod.fst)
    · have new : call.1 ∉ before.map Prod.fst := by
        rw [split, List.map_append, List.map_cons] at distinct
        exact fun again => (List.nodup_append.mp distinct).2.2 _ again _ List.mem_cons_self rfl
      have among : before.length < calls.length := by
        rw [split, List.length_append, List.length_cons]
        omega
      rw [if_neg new, List.getElem?_replicate_of_lt among]
    · rw [find_reverse distinct] at last
      rw [finds, last]

/-- Two keys with one hash, an integer and a string. -/
theorem insertions_replace_iff_neighbours : ∃ memory' returns,
    insertAll 3 freshMemory (neighbours.map Setting.pair) = .ok (memory', returns) ∧
      Replaces (neighbours.map Setting.pair) returns memory'.map 3 := by
  obtain ⟨memory', returns, inserted, replaces⟩ := insertions_replace_iff
    (neighbours.map Setting.pair) freshMemory 3 (fun _ => rfl) plenty_freshMemory (by decide +kernel)
    (by decide)
  exact ⟨memory', returns, inserted, replaces.mpr (by decide +kernel)⟩

/-- The key `a` comes with 1 and then with 2: both calls return 1, and `get` still
finds 1. -/
theorem second_value_is_hidden : ∃ memory' returns,
    insertAll 3 freshMemory [(bytes "a", intBytes 1), (bytes "a", intBytes 2)] =
        .ok (memory', returns) ∧
      ¬ Replaces [(bytes "a", intBytes 1), (bytes "a", intBytes 2)] returns memory'.map 3 := by
  obtain ⟨memory', inserted, -, finds⟩ := insertAll_empty plenty_freshMemory (fun _ => rfl)
    (show ∀ call ∈ [(bytes "a", intBytes 1), (bytes "a", intBytes 2)], 0 ∉ call.1 by decide +kernel)
    (show 2 < 3 by decide)
  refine ⟨memory', _, inserted, fun replaces => ?_⟩
  have last := replaces.found (bytes "a") (intBytes 2) (by decide +kernel)
  rw [finds] at last
  revert last
  decide +kernel

/-! ## Insertions that fail -/

/-- Some call of `malloc` in an insertion returns nothing, and what the others
return is not in use. -/
structure Scarce (map : HashMap) (answers : Blocks) : Prop where
  fails : answers.cell = none ∨ answers.key = none ∨ answers.value = none
  cell : ∀ addr, answers.cell = some addr → map.cells addr = none
  key : ∀ addr, answers.key = some addr → map.blocks addr = none

/-- A failed insertion as it should be: the call says so, and the map is well
formed with the same entries. -/
def FailsCleanly (map : HashMap) (content : List (List Byte × List Byte)) (fuel : Nat)
    (outcome : Except Fault (HashMap × Int)) : Prop :=
  ∃ map' r, outcome = .ok (map', r) ∧ r < 0 ∧ StandsFor map' content ∧
    ∀ key, get map' key fuel = get map key fuel

/-- A chain that leads to a cell that cannot be read is not well formed. -/
theorem not_standsFor_of_dangling {i : Fin MAP_SIZE} {cell : Addr}
    (linked : Path Elem.next map.cells (map.elems i) (entries.map Entry.cell) (some cell))
    (stored : ∀ entry ∈ entries, Stored map entry) (noNul : ∀ entry ∈ entries, 0 ∉ entry.key)
    (unread : ∀ fuel, readChain map (fuel + 1) (some cell) = .error .undefined) :
    ¬ StandsFor map content := by
  intro stands
  have fails : readChain map (entries.length + (content.length + 1)) (map.elems i) =
      .error .undefined := by
    rw [readChain_path linked stored noNul, unread]
    rfl
  rw [readChain_stands stands (show content.length < _ by omega)] at fails
  cases fails

variable {key : List Byte} {cell : Addr}

/-- The new cell is in its chain from `link` on, whatever becomes of it. -/
theorem linked_dangles (stands : StandsFor map content) (fresh : map.cells cell = none)
    (linked : link map (bucket key) (some cell) fuel = .ok map') (enough : content.length ≤ fuel)
    {after : HashMap} (elems : after.elems = map'.elems)
    (cells : ∀ addr, addr ≠ cell → after.cells addr = map'.cells addr)
    (blocks : ∀ addr, map.blocks addr ≠ none → after.blocks addr = map.blocks addr)
    (unread : ∀ fuel, readChain after (fuel + 1) (some cell) = .error .undefined) :
    ¬ StandsFor after content := by
  obtain ⟨chains, rep, held⟩ := stands
  have short := (chain_length (held (bucket key))).trans enough
  obtain ⟨_, walked, sameBlocks, path, stored, -⟩ := link_chains rep cell short
  obtain rfl := Except.ok.inj (linked.symm.trans walked)
  have start := path (bucket key)
  rw [if_pos rfl, ← elems] at start
  have other : ∀ entry ∈ chains (bucket key), entry.cell ≠ cell := fun entry among same =>
    rep.live (List.mem_map_of_mem among) (same ▸ fresh)
  refine not_standsFor_of_dangling (path_frame start fun addr member => ?_) (fun entry among => ?_)
    (fun entry among => (rep.home _ entry among).2) unread
  · obtain ⟨entry, among, rfl⟩ := List.mem_map.mp member
    exact cells _ (other entry among)
  · obtain ⟨keyAddr, valueAddr, next, stands, keyBlock, valueBlock⟩ := stored _ entry among
    rw [sameBlocks] at keyBlock valueBlock
    exact ⟨keyAddr, valueAddr, next, (cells _ (other entry among)).trans stands,
      (blocks _ (by simp [keyBlock])).trans keyBlock, (blocks _ (by simp [valueBlock])).trans valueBlock⟩

/-- A failed insertion never leaves the map as it was. Without the cell the call
writes through a null pointer; without the key the chain leads to the cell that was
freed, and without the value to a cell whose key was freed. -/
theorem failed_insertion_never_clean (map : HashMap) (content : List (List Byte × List Byte))
    (key value : List Byte) (answers : Blocks) (fuel : Nat) (stands : StandsFor map content)
    (scarce : Scarce map answers) (enough : content.length ≤ fuel) :
    ¬ FailsCleanly map content fuel (hashmapInsert map key value answers fuel) := by
  rintro ⟨after, r, inserted, -, stands', -⟩
  unfold hashmapInsert at inserted
  cases walked : link map (bucket key) answers.cell fuel with
  | error fault =>
    rw [walked] at inserted
    cases inserted
  | ok map' =>
    simp only [walked] at inserted
    cases cellAnswer : answers.cell with
    | none =>
      rw [cellAnswer] at inserted
      cases inserted
    | some cell =>
      have fresh := scarce.cell cell cellAnswer
      rw [cellAnswer] at walked
      have blocks : map'.blocks = map.blocks := by
        obtain ⟨chains, rep, held⟩ := stands
        obtain ⟨_, again, same, -⟩ := link_chains rep cell ((chain_length (held (bucket key))).trans enough)
        rw [Except.ok.inj (walked.symm.trans again), same]
      cases keyAnswer : answers.key with
      | none =>
        simp only [cellAnswer, keyAnswer, Except.ok.injEq, Prod.mk.injEq] at inserted
        obtain ⟨rfl, -⟩ := inserted
        refine absurd stands' (linked_dangles stands fresh walked enough rfl
          (fun addr other => Heap.free_of_ne other) (fun addr _ => by rw [blocks]) fun fuel => ?_)
        simp only [readChain, Heap.free_self]
      | some keyAddr =>
        have missing : answers.value = none := by
          simpa [cellAnswer, keyAnswer] using scarce.fails
        simp only [cellAnswer, keyAnswer, missing, Except.ok.injEq, Prod.mk.injEq] at inserted
        obtain ⟨rfl, -⟩ := inserted
        have unused := scarce.key keyAddr keyAnswer
        refine absurd stands' (linked_dangles stands fresh walked enough rfl
          (fun addr other => Heap.write_of_ne other) (fun addr used => ?_) fun fuel => ?_)
        · have other : addr ≠ keyAddr := fun same => used (same ▸ unused)
          exact (Heap.free_of_ne other).trans (by rw [blocks])
        · have gone : (some keyAddr).bind (map'.blocks.free keyAddr) = none := Heap.free_self
          simp only [readChain, Heap.write_self, gone]

/-- The value of a third key with the same hash finds no memory. -/
theorem failed_insertion_never_clean_neighbours : ∃ map answers,
    StandsFor map (neighbours.map Setting.pair) ∧ answers.value = none ∧
      ¬ FailsCleanly map (neighbours.map Setting.pair) 2
        (hashmapInsert map (bytes "aj") (intBytes 7) answers 2) := by
  obtain ⟨memory, -, stands, plenty⟩ := insertAll_appends plenty_freshMemory (standsFor_empty fun _ => rfl)
    (show ∀ call ∈ neighbours.map Setting.pair, 0 ∉ call.1 by decide +kernel)
    (show [].length + (neighbours.map Setting.pair).length ≤ 2 by decide)
  rw [List.nil_append] at stands
  obtain ⟨cell, keyAddr, valueAddr, garbage, -, free⟩ := plenty.found 0
  exact ⟨memory.map, ⟨some cell, some keyAddr, none, garbage⟩, stands, rfl,
    failed_insertion_never_clean memory.map _ _ _ _ 2 stands
      ⟨.inr (.inr rfl), fun addr same => Option.some.inj same ▸ free.cell,
        fun addr same => Option.some.inj same ▸ free.key⟩ (by decide)⟩

/-- The copy of the key `a` finds no memory: the call returns -1, and the next
`get` reads the freed cell. -/
theorem freed_cell_stays_linked : ∃ map',
    hashmapInsert freshMemory.map (bytes "a") (intBytes 1) ⟨some 0, none, none, ⟨none, none, 0, none⟩⟩ 1 =
        .ok (map', -1) ∧
      get freshMemory.map (bytes "a") 1 = .ok (0, []) ∧
      get map' (bytes "a") 1 = .error .undefined ∧
      ¬ FailsCleanly freshMemory.map [] 1 (hashmapInsert freshMemory.map (bytes "a") (intBytes 1)
        ⟨some 0, none, none, ⟨none, none, 0, none⟩⟩ 1) := by
  refine ⟨_, rfl, by decide +kernel, by decide +kernel, ?_⟩
  rintro ⟨map', r, inserted, -, -, same⟩
  have before := same (bytes "a")
  rw [← (Prod.mk.inj (Except.ok.inj inserted)).1] at before
  revert before
  decide +kernel

end LocalServer.Yml
