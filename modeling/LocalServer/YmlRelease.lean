import LocalServer.Lib.Chains
import LocalServer.YmlIntegers

/-! The end of a parser. `free_parser` walks the chains of the map and gives back each
cell with its key and its value. It comes to its end exactly where the map started with
empty chains and `exec_parser` has given back the mutex, and the memory is then as it was
before the parser was made. -/
namespace LocalServer.Yml
open LinkedList Regex
open CList (Fault)

/-- `free`. -/
def freeBlock (blocks : Heap (List Byte)) : Option Addr → Except Fault (Heap (List Byte))
  | none => .ok blocks
  | some addr =>
    match blocks addr with
    | none => .error .undefined
    | some _ => .ok (blocks.free addr)

/-- The loop of `free_hash_map` over one chain. -/
def freeChain : Nat → HashMap → Option Addr → Except Fault HashMap
  | _, map, none => .ok map
  | 0, _, some _ => .error .endless
  | fuel + 1, map, some addr =>
    match map.cells addr with
    | none => .error .undefined
    | some elem =>
      match freeBlock map.blocks elem.key with
      | .error fault => .error fault
      | .ok blocks =>
        match freeBlock blocks elem.value with
        | .error fault => .error fault
        | .ok blocks => freeChain fuel { map with cells := map.cells.free addr, blocks := blocks } elem.next

/-- The outer loop, with the indices that it still comes to. -/
def freeChains (fuel : Nat) : HashMap → List (Fin MAP_SIZE) → Except Fault HashMap
  | map, [] => .ok map
  | map, i :: later =>
    match freeChain fuel map (map.elems i) with
    | .error fault => .error fault
    | .ok map => freeChains fuel map later

/-- `free_hash_map`, with the cells and the blocks that stay in memory. -/
def freeHashMap (fuel : Nat) (map : HashMap) : Except Fault HashMap :=
  freeChains fuel map (List.finRange MAP_SIZE)

/-- `free_parser`, given whether its wait is interrupted, with what stays in memory. -/
def freeParser (parser : Option Parser) (interrupted : Bool) (fuel : Nat) : Except Fault (Option HashMap × Int) :=
  match parser with
  | none => .ok (none, YML_INVALID_POINTER)
  | some parser =>
    if interrupted then .ok (some parser.memory.map, YML_SEM_ERROR)
    else if parser.mutex = 0 then .error .blocked
    else
      match freeHashMap fuel parser.memory.map with
      | .error fault => .error fault
      | .ok map => .ok (some map, 1)

/-! ## What a cell owns -/

/-- The key and the value of the cell at an address. -/
def owned (cells : Heap Elem) (addr : Addr) : List Addr :=
  match cells addr with
  | none => []
  | some elem => elem.key.toList ++ elem.value.toList

variable {map map' : HashMap} {cells : Heap Elem} {blocks before : Heap (List Byte)} {start : Option Addr}
  {path addrs : List Addr} {addr cell keyAddr valueAddr : Addr} {elem : Elem} {fuel n : Nat} {i : Fin MAP_SIZE}
  {key value : List Byte}

theorem owned_of_found (found : cells addr = some elem) : owned cells addr = elem.key.toList ++ elem.value.toList := by
  rw [owned, found]

theorem live_of_owned {x : Addr} (member : x ∈ owned cells addr) : cells addr ≠ none := by
  intro gone
  rw [owned, gone] at member
  cases member

theorem owned_congr (same : cells addr = map.cells addr) : owned cells addr = owned map.cells addr := by
  rw [owned, same, owned]

/-- A pointer to a block of its own is freed. -/
theorem freeBlock_ok {pointer : Option Addr} (live : ∀ x ∈ pointer.toList, blocks x ≠ none) :
    freeBlock blocks pointer = .ok (blocks.drop pointer.toList) := by
  cases pointer with
  | none => rw [Option.toList_none, Heap.drop_nil, freeBlock]
  | some addr =>
    obtain ⟨block, found⟩ := Option.ne_none_iff_exists'.mp (live addr List.mem_cons_self)
    rw [Option.toList_some, ← Heap.free_drop, Heap.drop_nil, freeBlock, found]

/-! ## Chains that can be freed -/

/-- A chain is freed whole if no block in it is freed twice. -/
theorem freeChain_ok (linked : Path Elem.next map.cells start path none) (enough : path.length ≤ fuel)
    (distinct : (path.flatMap (owned map.cells)).Nodup)
    (live : ∀ x ∈ path.flatMap (owned map.cells), map.blocks x ≠ none) :
    freeChain fuel map start = .ok { map with cells := map.cells.drop path
                                              blocks := map.blocks.drop (path.flatMap (owned map.cells)) } := by
  induction path generalizing map start fuel with
  | nil =>
    obtain rfl : start = none := linked
    rw [freeChain, List.flatMap_nil, Heap.drop_nil, Heap.drop_nil]
  | cons addr path ih =>
    have once := List.nodup_cons.mp (path_nodup linked)
    obtain ⟨rfl, elem, found, rest⟩ := linked
    cases fuel with
    | zero => cases enough
    | succ fuel =>
      rw [List.flatMap_cons, owned_of_found found, List.append_assoc] at distinct live
      obtain ⟨-, distinct, keyApart⟩ := List.nodup_append.mp distinct
      obtain ⟨-, distinct, valueApart⟩ := List.nodup_append.mp distinct
      have keyFreed : freeBlock map.blocks elem.key = _ := freeBlock_ok fun x member =>
        live x (List.mem_append_left _ member)
      have valueFreed : freeBlock (map.blocks.drop elem.key.toList) elem.value = _ := freeBlock_ok fun x member => by
        have other : x ∉ elem.key.toList := fun both =>
          keyApart x both x (List.mem_append_left _ member) rfl
        rw [Heap.drop_of_not_mem other]
        exact live x (List.mem_append_right _ (List.mem_append_left _ member))
      let map' : HashMap := { map with cells := map.cells.free addr
                                       blocks := (map.blocks.drop elem.key.toList).drop elem.value.toList }
      have same : path.flatMap (owned map'.cells) = path.flatMap (owned map.cells) :=
        List.flatMap_congr fun other member =>
          owned_congr (Heap.free_of_ne (ne_of_mem_of_not_mem member once.1))
      have onward : freeChain fuel map' elem.next = _ := ih (path_free rest once.1) (Nat.le_of_succ_le_succ enough)
        (by rw [same]; exact distinct) fun x member => by
          rw [same] at member
          have notKey : x ∉ elem.key.toList := fun both =>
            keyApart x both x (List.mem_append_right _ member) rfl
          have notValue : x ∉ elem.value.toList := fun both => valueApart x both x member rfl
          change ((map.blocks.drop elem.key.toList).drop elem.value.toList) x ≠ none
          rw [Heap.drop_of_not_mem notValue, Heap.drop_of_not_mem notKey]
          exact live x (List.mem_append_right _ (List.mem_append_right _ member))
      simp only [freeChain, found, keyFreed, valueFreed]
      rw [onward, same]
      congr 2
      · exact Heap.free_drop
      · rw [List.flatMap_cons, owned_of_found found, Heap.drop_append, Heap.drop_append]

/-- All chains are freed if no two of them meet. -/
theorem freeChains_ok {paths : Fin MAP_SIZE → List Addr} {later : List (Fin MAP_SIZE)}
    (linked : ∀ i ∈ later, Path Elem.next map.cells (map.elems i) (paths i) none)
    (enough : ∀ i ∈ later, (paths i).length ≤ fuel) (once : (later.flatMap paths).Nodup)
    (distinct : ((later.flatMap paths).flatMap (owned map.cells)).Nodup)
    (live : ∀ x ∈ (later.flatMap paths).flatMap (owned map.cells), map.blocks x ≠ none) :
    freeChains fuel map later = .ok
      { map with cells := map.cells.drop (later.flatMap paths)
                 blocks := map.blocks.drop ((later.flatMap paths).flatMap (owned map.cells)) } := by
  induction later generalizing map with
  | nil => rw [freeChains, List.flatMap_nil, List.flatMap_nil, Heap.drop_nil, Heap.drop_nil]
  | cons i later ih =>
    rw [List.flatMap_cons] at once
    rw [List.flatMap_cons, List.flatMap_append] at distinct live
    obtain ⟨-, once, apart⟩ := List.nodup_append.mp once
    obtain ⟨distinct, distinctLater, blocksApart⟩ := List.nodup_append.mp distinct
    have freed := freeChain_ok (linked i List.mem_cons_self) (enough i List.mem_cons_self) distinct
      fun x member => live x (List.mem_append_left _ member)
    let map' : HashMap := { map with cells := map.cells.drop (paths i)
                                     blocks := map.blocks.drop ((paths i).flatMap (owned map.cells)) }
    have kept : ∀ addr ∈ later.flatMap paths, map'.cells addr = map.cells addr := fun addr member =>
      Heap.drop_of_not_mem fun both => apart addr both addr member rfl
    have same : (later.flatMap paths).flatMap (owned map'.cells) = (later.flatMap paths).flatMap (owned map.cells) :=
      List.flatMap_congr fun addr member => owned_congr (kept addr member)
    have onward : freeChains fuel map' later = _ := ih
      (fun j among => path_frame (linked j (List.mem_cons_of_mem _ among)) fun addr member =>
        kept addr (List.mem_flatMap.mpr ⟨j, among, member⟩))
      (fun j among => enough j (List.mem_cons_of_mem _ among)) once (by rwa [same]) fun x member => by
        rw [same] at member
        have other : x ∉ (paths i).flatMap (owned map.cells) := fun both => blocksApart x both x member rfl
        change map.blocks.drop ((paths i).flatMap (owned map.cells)) x ≠ none
        rw [Heap.drop_of_not_mem other]
        exact live x (List.mem_append_right _ member)
    simp only [freeChains, freed]
    rw [onward, same, List.flatMap_cons, List.flatMap_append, Heap.drop_append, Heap.drop_append]

/-! ## Chains that were freed -/

/-- A chain that was freed ended, and its cells are gone. -/
theorem freeChain_frees (freed : freeChain fuel map start = .ok map') :
    ∃ path, Path Elem.next map.cells start path none ∧ map'.cells = map.cells.drop path ∧ map'.elems = map.elems := by
  induction fuel generalizing map start with
  | zero =>
    cases start with
    | none =>
      cases freed
      exact ⟨[], rfl, Heap.drop_nil.symm, rfl⟩
    | some addr => cases freed
  | succ fuel ih =>
    cases start with
    | none =>
      cases freed
      exact ⟨[], rfl, Heap.drop_nil.symm, rfl⟩
    | some addr =>
      rw [freeChain] at freed
      cases found : map.cells addr with
      | none =>
        rw [found] at freed
        cases freed
      | some elem =>
        simp only [found] at freed
        split at freed
        · cases freed
        · split at freed
          · cases freed
          · obtain ⟨path, linked, cells, elems⟩ := ih freed
            have outside : addr ∉ path := fun member => by
              obtain ⟨other, there⟩ := path_live linked member
              cases Heap.free_self.symm.trans there
            have whole : Path Elem.next map.cells elem.next path none := path_frame linked fun other member =>
              (Heap.free_of_ne (ne_of_mem_of_not_mem member outside)).symm
            exact ⟨addr :: path, ⟨rfl, elem, found, whole⟩, cells.trans Heap.free_drop, elems⟩

/-- Chains that were all freed ended and did not meet. -/
theorem freeChains_frees {later : List (Fin MAP_SIZE)} (freed : freeChains fuel map later = .ok map') :
    (∀ i ∈ later, ∃ path, Path Elem.next map.cells (map.elems i) path none) ∧
      later.Pairwise fun i j => ∀ first second, Path Elem.next map.cells (map.elems i) first none →
        Path Elem.next map.cells (map.elems j) second none → first.Disjoint second := by
  induction later generalizing map with
  | nil => exact ⟨fun _ => nofun, .nil⟩
  | cons i later ih =>
    rw [freeChains] at freed
    cases chain : freeChain fuel map (map.elems i) with
    | error fault =>
      rw [chain] at freed
      cases freed
    | ok middle =>
      rw [chain] at freed
      obtain ⟨path, linked, cells, elems⟩ := freeChain_frees chain
      obtain ⟨ended, apart⟩ := ih freed
      rw [elems, cells] at ended apart
      -- what is left of the heap has the paths that do not meet the first one
      have lifts : ∀ j ∈ later, ∃ path', Path Elem.next (map.cells.drop path) (map.elems j) path' none ∧
          Path Elem.next map.cells (map.elems j) path' none ∧ path.Disjoint path' := by
        intro j among
        obtain ⟨path', linked'⟩ := ended j among
        have outside : ∀ addr ∈ path', addr ∉ path := fun addr member both => by
          obtain ⟨elem, there⟩ := path_live linked' member
          cases (Heap.drop_of_mem both).symm.trans there
        exact ⟨path', linked', path_frame linked' fun addr member => (Heap.drop_of_not_mem (outside addr member)).symm,
          fun addr both member => outside addr member both⟩
      refine ⟨fun j among => ?_, .cons (fun j among first second here there => ?_) ?_⟩
      · rcases List.mem_cons.mp among with rfl | among
        · exact ⟨path, linked⟩
        · obtain ⟨path', -, linked', -⟩ := lifts j among
          exact ⟨path', linked'⟩
      · obtain ⟨path', -, linked', disjoint⟩ := lifts j among
        rw [path_unique here linked, path_unique there linked']
        exact disjoint
      · refine apart.imp_of_mem fun {j k} amongJ amongK disjoint first second here there => ?_
        obtain ⟨path', short, linked', -⟩ := lifts j amongJ
        obtain ⟨path'', short', linked'', -⟩ := lifts k amongK
        rw [path_unique here linked', path_unique there linked'']
        exact disjoint path' path'' short short'

/-! ## The memory of a map -/

/-- The chains whose heads were null. -/
abbrev Clean (heads : Fin MAP_SIZE → Option Addr) : Type := { i : Fin MAP_SIZE // heads i = none }

/-- No block is the key or the value of two cells or both of one, and the blocks that
belong to no cell are as they were before. -/
structure Owns (map : HashMap) (before : Heap (List Byte)) : Prop where
  once : ∀ addr, (owned map.cells addr).Nodup
  alone : ∀ addr other x, x ∈ owned map.cells addr → x ∈ owned map.cells other → addr = other
  live : ∀ addr, ∀ x ∈ owned map.cells addr, map.blocks x ≠ none ∧ before x = none
  others : ∀ x, (∀ addr, x ∉ owned map.cells addr) → map.blocks x = before x

/-- The cells are those of the chains whose heads were null, and the other heads are as
they were. -/
structure Whole (heads : Fin MAP_SIZE → Option Addr) (before : Heap (List Byte)) (map : HashMap) (n : Nat) : Prop where
  astray : ∀ i, heads i ≠ none → map.elems i = heads i
  chains : ∃ paths : Clean heads → List Addr,
    Chains Elem.next map.cells (fun i : Clean heads => map.elems i) paths ∧ ∀ i, (paths i).length ≤ n
  owns : Owns map before

variable {heads : Fin MAP_SIZE → Option Addr}

theorem whole_bare (bare : ∀ addr, map.cells addr = none) : Whole map.elems map.blocks map 0 where
  astray _ _ := rfl
  chains := ⟨fun _ => [], chains_empty bare fun i => i.2, fun _ => Nat.le_refl 0⟩
  owns :=
    { once := fun addr => by
        rw [owned, bare]
        exact List.nodup_nil
      alone := fun addr other x member => absurd (bare addr) (live_of_owned member)
      live := fun addr x member => absurd (bare addr) (live_of_owned member)
      others := fun _ _ => rfl }

/-- A new link leaves a cell its key and its value. -/
theorem link_owned (linked : link map i (some cell) fuel = .ok map') (addr : Addr) :
    owned map'.cells addr = owned map.cells addr := by
  rw [link] at linked
  cases start : map.elems i with
  | none =>
    simp only [start] at linked
    cases linked
    rfl
  | some head =>
    simp only [start] at linked
    cases walked : lastCell map.cells fuel head with
    | error fault =>
      rw [walked] at linked
      cases linked
    | ok found =>
      obtain ⟨last, elem⟩ := found
      simp only [walked] at linked
      cases linked
      obtain ⟨-, -, -, live, -⟩ := lastCell_walks walked
      by_cases same : addr = last
      · rw [same, owned_of_found live, owned_of_found Heap.write_self]
      · exact owned_congr (Heap.write_of_ne same)

/-- The new cell goes to the end of a chain whose head was null, wherever the walk began. -/
theorem link_whole (whole : Whole heads before map n) (unused : map.cells cell = none)
    (linked : link map i (some cell) fuel = .ok map') {new : Elem} (ends : new.next = none) :
    (∀ j, heads j ≠ none → map'.elems j = heads j) ∧ ∃ paths : Clean heads → List Addr,
      Chains Elem.next (map'.cells.write cell new) (fun i : Clean heads => map'.elems i) paths ∧ ∀ i, (paths i).length ≤ n + 1 := by
  obtain ⟨paths, chains, short⟩ := whole.chains
  have longer {paths' : Clean heads → List Addr} (j : Clean heads) (path : List Addr)
      (grown : paths' = Function.update paths j path) (few : path.length ≤ n + 1) (k : Clean heads) :
      (paths' k).length ≤ n + 1 := by
    rw [grown]
    by_cases same : k = j
    · rwa [same, Function.update_self]
    · rw [Function.update_of_ne same]
      exact Nat.le_succ_of_le (short k)
  rw [link] at linked
  cases start : map.elems i with
  | none =>
    simp only [start] at linked
    cases linked
    have clean : heads i = none := by
      by_contra garbage
      exact garbage ((whole.astray i garbage).symm.trans start)
    refine ⟨fun j garbage => ?_, _, ?_, longer ⟨i, clean⟩ [cell] rfl (Nat.le_add_left 1 n)⟩
    · have apart : j ≠ i := fun same => garbage (same ▸ clean)
      exact (Function.update_of_ne apart ..).trans (whole.astray j garbage)
    · have heads' : (fun j : Clean heads => Function.update map.elems i (some cell) j) =
          Function.update (fun j : Clean heads => map.elems j) ⟨i, clean⟩ (some cell) := by
        funext j
        by_cases same : j = ⟨i, clean⟩
        · rw [same, Function.update_self, Function.update_self]
        · rw [Function.update_of_ne same, Function.update_of_ne fun both => same (Subtype.ext both)]
      rw [heads']
      exact chains.begin start unused ends
  | some head =>
    simp only [start] at linked
    cases walked : lastCell map.cells fuel head with
    | error fault =>
      rw [walked] at linked
      cases linked
    | ok found =>
      obtain ⟨last, elem⟩ := found
      simp only [walked] at linked
      cases linked
      obtain ⟨-, -, -, live, stops⟩ := lastCell_walks walked
      have links : ({ elem with next := some cell } : Elem).next = some cell := rfl
      obtain ⟨j, -, hung⟩ := chains.hang live stops unused links ends
      refine ⟨whole.astray, _, hung, longer j _ rfl ?_⟩
      rw [List.length_append]
      exact Nat.add_le_add_right (short j) 1

/-- The new cell owns two blocks that nobody owned. -/
theorem owns_fill (owns : Owns map before) (unused : map.cells cell = none) (same : ∀ addr, owned map'.cells addr = owned map.cells addr)
    (blocks : map'.blocks = map.blocks) (keyFree : map.blocks keyAddr = none) (valueFree : map.blocks valueAddr = none)
    (apart : keyAddr ≠ valueAddr) (key value : List Byte) : Owns (map'.fill cell keyAddr valueAddr key value) before := by
  have new : owned (map'.fill cell keyAddr valueAddr key value).cells cell = [keyAddr, valueAddr] :=
    owned_of_found Heap.write_self
  have old {addr : Addr} (other : addr ≠ cell) :
      owned (map'.fill cell keyAddr valueAddr key value).cells addr = owned map.cells addr :=
    (owned_congr (Heap.write_of_ne other)).trans (same addr)
  have kept {x : Addr} (notKey : x ≠ keyAddr) (notValue : x ≠ valueAddr) :
      (map'.fill cell keyAddr valueAddr key value).blocks x = map.blocks x :=
    (Heap.write_of_ne notValue).trans ((Heap.write_of_ne notKey).trans (by rw [blocks]))
  have strange {x addr : Addr} (member : x ∈ owned map.cells addr) : x ≠ keyAddr ∧ x ≠ valueAddr :=
    ⟨fun both => (owns.live addr x member).1 (both ▸ keyFree), fun both => (owns.live addr x member).1 (both ▸ valueFree)⟩
  have nobodys {x : Addr} (free : map.blocks x = none) : before x = none :=
    (owns.others x fun addr member => (owns.live addr x member).1 free) ▸ free
  refine ⟨fun addr => ?_, fun addr other x here there => ?_, fun addr x member => ?_, fun x outside => ?_⟩
  · by_cases own : addr = cell
    · rw [own, new]
      simpa using apart
    · rw [old own]
      exact owns.once addr
  · by_cases own : addr = cell <;> by_cases own' : other = cell
    · exact own.trans own'.symm
    · rw [own, new] at here
      rw [old own'] at there
      obtain ⟨notKey, notValue⟩ := strange there
      simp [notKey, notValue] at here
    · rw [old own] at here
      rw [own', new] at there
      obtain ⟨notKey, notValue⟩ := strange here
      simp [notKey, notValue] at there
    · rw [old own] at here
      rw [old own'] at there
      exact owns.alone addr other x here there
  · by_cases own : addr = cell
    · rw [own, new] at member
      rcases List.mem_pair.mp member with rfl | rfl
      · have written : (map'.fill cell x valueAddr key value).blocks x = some (key ++ [0]) :=
          (Heap.write_of_ne apart).trans Heap.write_self
        exact ⟨by rw [written]; exact Option.some_ne_none _, nobodys keyFree⟩
      · have written : (map'.fill cell keyAddr x key value).blocks x = some value := Heap.write_self
        exact ⟨by rw [written]; exact Option.some_ne_none _, nobodys valueFree⟩
    · rw [old own] at member
      obtain ⟨notKey, notValue⟩ := strange member
      rw [kept notKey notValue]
      exact owns.live addr x member
  · have notNew := outside cell
    rw [new, List.mem_pair, not_or] at notNew
    rw [kept notNew.1 notNew.2]
    refine owns.others x fun addr member => ?_
    by_cases own : addr = cell
    · exact absurd unused (own ▸ live_of_owned member)
    · exact outside addr (by rwa [old own])

theorem whole_insert (whole : Whole heads before map n) (value : List Byte) (unused : map.cells cell = none)
    (keyFree : map.blocks keyAddr = none) (valueFree : map.blocks valueAddr = none)
    (apart : keyAddr ≠ valueAddr) (linked : link map (bucket key) (some cell) fuel = .ok map') :
    Whole heads before (map'.fill cell keyAddr valueAddr key value) (n + 1) := by
  obtain ⟨-, -, blocks, -⟩ := link_hooks linked
  have ends : (⟨some valueAddr, some keyAddr, value.length, none⟩ : Elem).next = none := rfl
  obtain ⟨astray, chains⟩ := link_whole whole unused linked ends
  exact ⟨astray, chains, owns_fill whole.owns unused (link_owned linked) blocks keyFree valueFree apart key value⟩

/-! ## After the passes -/

variable {memory memory' : Memory} {acc acc' : Int} {text : List Byte} {pattern : Regex Byte} {quotes : Nat}

/-- A pass that keeps its type leaves a map that is whole. -/
theorem pass_whole {m : Nat} (shape : ValuePattern pattern quotes) (running : 0 ≤ acc)
    (most : (readings pattern quotes acc text).length ≤ m) (whole : Whole heads before memory.map n)
    (fresh : Fresh memory)
    (returned : applyMatches (keyed pattern) (insertKeysValues fuel) m text memory acc = .ok (memory', acc'))
    (works : ¬ acc' < 0) :
    Whole heads before memory'.map (n + (readings pattern quotes acc text).length) ∧ Fresh memory' := by
  refine pass_induction (motive := fun read memory memory' acc' =>
      ∀ n, Whole heads before memory.map n → Fresh memory → ¬ acc' < 0 →
        Whole heads before memory'.map (n + read.length) ∧ Fresh memory')
    ?_ ?_ ?_ shape running most returned n whole fresh works
  · intro memory n whole fresh _
    exact ⟨whole, fresh⟩
  · intro first rest memory map memory' acc' noNul granted inserted ih n whole fresh works
    obtain ⟨cell, keyAddr, valueAddr, linked, cellFound, keyFound, valueFound, linking, rfl⟩ :=
      hashmapInsert_granted granted inserted
    have whole' := whole_insert whole first.2 (fresh.cell 0 cell cellFound) (fresh.key 0 keyAddr keyFound)
      (fresh.value 0 valueAddr valueFound) (fun same => fresh.apart 0 0 keyAddr keyFound (same ▸ valueFound)) linking
    have fresh' := fresh.insert cellFound keyFound valueFound linking first.2
    have later := ih _ whole' fresh' works
    rwa [List.length_cons, Nat.add_comm rest.length, ← Nat.add_assoc]
  · intro first rest memory memory' _ n _ _ works
    exact absurd (by decide) works

variable {parser parser' : Parser} {answers : Answers} {r : Int}

/-- An execution that gives back the mutex leaves a map that is whole. -/
theorem execParser_whole (bare : ∀ addr, parser.memory.map.cells addr = none) (fresh : Fresh parser.memory)
    (ready : parser.mutex = 1) (executed : execParser parser answers fuel = .ok (parser', r)) :
    (parser'.mutex = 1 ∧ Whole parser.memory.map.elems parser.memory.map.blocks parser'.memory.map
      (insertions parser.content.bytes)) ∨ parser'.mutex = 0 := by
  have left : parser.mutex - 1 = 0 := by rw [ready]
  cases execParser_returns executed with
  | interrupted signal =>
    refine .inl ⟨ready, ?_⟩
    obtain ⟨astray, ⟨paths, chains, short⟩, owns⟩ := whole_bare bare
    exact ⟨astray, ⟨paths, chains, fun i => (short i).trans (Nat.zero_le _)⟩, owns⟩
  | again | intsFail | stringsFail | unposted => exact .inr left
  | done notYet memory memory' r r' intPass works stringPass works' posted =>
    refine .inl ⟨congrArg (· + 1) left, ?_⟩
    rcases regApplyFunc_returns intPattern intKind.running intPass with ⟨rfl, compiled, -⟩ | ⟨failed, -⟩
    · rcases regApplyFunc_returns stringPattern stringKind.running stringPass with ⟨rfl, compiled', -⟩ | ⟨failed, -⟩
      · rw [compiled] at intPass
        rw [compiled'] at stringPass
        obtain ⟨wholeInts, freshInts⟩ := pass_whole intPattern intKind.running
          (readings_length intPattern.solid _) (whole_bare bare) fresh intPass works
        obtain ⟨wholeAll, -⟩ := pass_whole stringPattern stringKind.running
          (readings_length stringPattern.solid _) wholeInts freshInts stringPass works'
        rwa [Nat.zero_add] at wholeAll
      · exact absurd failed works'
    · exact absurd failed works

/-! ## The map goes -/

/-- Where all heads were null the map is freed, and the memory is as it was. -/
theorem freeHashMap_whole (whole : Whole heads before map n) (zeroed : ∀ i, heads i = none) (enough : n ≤ fuel) :
    freeHashMap fuel map = .ok ⟨map.elems, fun _ => none, before⟩ := by
  obtain ⟨paths, chains, short⟩ := whole.chains
  let paths' (i : Fin MAP_SIZE) : List Addr := paths ⟨i, zeroed i⟩
  have once : ((List.finRange MAP_SIZE).flatMap paths').Nodup := by
    refine List.nodup_flatMap.mpr ⟨fun i _ => path_nodup (chains.path ⟨i, zeroed i⟩), ?_⟩
    refine (List.nodup_finRange MAP_SIZE).imp fun {i j} apart addr here there => apart ?_
    exact congrArg Subtype.val (chains.apart ⟨i, zeroed i⟩ ⟨j, zeroed j⟩ addr here there)
  have cover (addr : Addr) (live : map.cells addr ≠ none) : addr ∈ (List.finRange MAP_SIZE).flatMap paths' := by
    obtain ⟨i, member⟩ := chains.cover addr live
    exact List.mem_flatMap.mpr ⟨i, List.mem_finRange _, member⟩
  have distinct : (((List.finRange MAP_SIZE).flatMap paths').flatMap (owned map.cells)).Nodup := by
    refine List.nodup_flatMap.mpr ⟨fun addr _ => whole.owns.once addr, ?_⟩
    exact once.imp fun {addr other} apart x here there => apart (whole.owns.alone addr other x here there)
  have freed : freeChains fuel map _ = _ := freeChains_ok (fun i _ => chains.path ⟨i, zeroed i⟩)
    (fun i _ => (short ⟨i, zeroed i⟩).trans enough) once distinct fun x member => by
      obtain ⟨addr, -, mine⟩ := List.mem_flatMap.mp member
      exact (whole.owns.live addr x mine).1
  rw [freeHashMap, freed]
  congr 2
  · funext addr
    by_cases live : map.cells addr = none
    · rw [Heap.drop]
      split
      · rfl
      · exact live
    · exact Heap.drop_of_mem (cover addr live)
  · funext x
    by_cases member : x ∈ ((List.finRange MAP_SIZE).flatMap paths').flatMap (owned map.cells)
    · obtain ⟨addr, -, mine⟩ := List.mem_flatMap.mp member
      rw [Heap.drop_of_mem member, (whole.owns.live addr x mine).2]
    · rw [Heap.drop_of_not_mem member]
      refine whole.owns.others x fun addr mine => member ?_
      exact List.mem_flatMap.mpr ⟨addr, cover addr (live_of_owned mine), mine⟩

/-- Where a head was not null the map is not freed: the chain behind it is no chain, or is
freed once more. -/
theorem zeroed_of_freed (whole : Whole heads before map n) (freed : freeHashMap fuel map = .ok map') (i : Fin MAP_SIZE) :
    heads i = none := by
  by_contra garbage
  obtain ⟨ended, apart⟩ := freeChains_frees freed
  obtain ⟨path, linked⟩ := ended i (List.mem_finRange i)
  obtain ⟨paths, chains, -⟩ := whole.chains
  have symmetric : Std.Symm fun i j => ∀ first second, Path Elem.next map.cells (map.elems i) first none →
      Path Elem.next map.cells (map.elems j) second none → first.Disjoint second :=
    ⟨fun i j disjoint first second here there => (disjoint second first there here).symm⟩
  cases path with
  | nil => exact garbage ((whole.astray i garbage).symm.trans linked)
  | cons first path =>
    have whole' := linked
    obtain ⟨-, elem, found, -⟩ := whole'
    obtain ⟨j, member⟩ := chains.cover first (by rw [found]; exact Option.some_ne_none elem)
    have other : i ≠ j := fun same => garbage (same ▸ j.2)
    exact apart.forall (List.mem_finRange i) (List.mem_finRange j.1) other _ _ linked (chains.path j)
      List.mem_cons_self member

/-- **A parser is given back whole or not at all.** After `init_yml_parser` and one call of
`exec_parser`, whatever it returned, `free_parser` comes to its end if and only if the
memory for the map was full of null pointers and the execution gave back the mutex. Then
each cell, key and value has been freed once and the memory is as it was. No other parser
has cells meanwhile, and no signal interrupts the wait for the mutex. -/
theorem parser_is_released_iff (path : Option (List Byte)) (startup : Startup) (cells : Heap Elem)
    (blocks : Heap (List Byte)) (supply : Nat → Blocks) (parser parser' : Parser) (answers : Answers) (r : Int)
    (fuel room : Nat) (created : initYmlParser path startup cells blocks supply = .ok parser)
    (bare : ∀ addr, cells addr = none) (fresh : Fresh parser.memory)
    (executed : execParser parser answers fuel = .ok (parser', r)) (enough : insertions parser.content.bytes ≤ room) :
    ((∃ left, freeParser (some parser') false room = .ok left) ↔
      startup.map = some (fun _ => none) ∧ GivesBack parser answers) ∧
    ∀ left, freeParser (some parser') false room = .ok left →
      ∃ map, left = (some map, 1) ∧ map.cells = cells ∧ map.blocks = blocks := by
  obtain ⟨ready, -, -, -, elems, -, -, -, -, map, -, -, -, memory⟩ := initYmlParser_ok created
  have mutex := execParser_mutex ready executed
  rcases execParser_whole (by rwa [memory]) fresh ready executed with ⟨free, whole⟩ | taken
  case inr =>
    have blocked : freeParser (some parser') false room = .error .blocked := if_pos taken
    rw [blocked]
    refine ⟨iff_of_false nofun fun both => ?_, nofun⟩
    rw [mutex.mpr both.2] at taken
    cases taken
  case inl =>
  rw [memory] at whole
  have freed : freeParser (some parser') false room =
      match freeHashMap room parser'.memory.map with
      | .error fault => .error fault
      | .ok map => .ok (some map, 1) := if_neg (by rw [free]; exact one_ne_zero)
  rw [freed, map, Option.some_inj]
  by_cases zeroed : ∀ i, elems i = none
  case pos =>
    rw [freeHashMap_whole whole zeroed enough]
    refine ⟨iff_of_true ⟨_, rfl⟩ ⟨funext zeroed, mutex.mp free⟩, fun left same => ?_⟩
    cases same
    exact ⟨_, rfl, (funext bare).symm, rfl⟩
  case neg =>
    cases outcome : freeHashMap room parser'.memory.map with
    | error fault => exact ⟨iff_of_false nofun fun both => zeroed (congrFun both.1), nofun⟩
    | ok map' => exact absurd (zeroed_of_freed whole outcome) zeroed

theorem parser_is_released_iff_once : ∃ parser' left,
    execParser oneSetting .granted 5 = .ok (parser', 1) ∧ freeParser (some parser') false 1 = .ok left := by
  obtain ⟨parser', executed, -⟩ := execParser_reads
    (show ∀ i, oneSetting.memory.map.elems i = none from fun _ => rfl) plenty_freshMemory
    Nat.one_pos rfl (show oneSetting.content.bytes.length ≤ 5 by decide +kernel)
  have released := parser_is_released_iff _ _ _ _ _ _ parser' .granted 1 _ 1 oneSetting_created (fun _ => rfl)
    plenty_freshMemory.fresh executed (by decide +kernel)
  obtain ⟨left, ended⟩ := released.1.mpr ⟨rfl, by decide +kernel⟩
  exact ⟨parser', left, executed, ended⟩

end LocalServer.Yml
