import LocalServer.CList
import LocalServer.Lib.CString

/-! The hash map of the configuration, cell by cell: 256 chains, the key and the
value of a cell in blocks of their own. It behaves like one list of entries, to
which an insertion appends and in which a lookup finds the first. -/
namespace LocalServer.Yml
open LinkedList
open CList (Fault)

def MAP_SIZE : Nat := 256

/-- `struct yml_hash_map_elem`. -/
structure Elem where
  value : Option Addr
  key : Option Addr
  size : Nat
  next : Option Addr
  deriving DecidableEq

/-- `struct yml_hash_map`, with the cells and the blocks that lie in memory. -/
structure HashMap where
  elems : Fin MAP_SIZE → Option Addr
  cells : Heap Elem
  blocks : Heap (List Byte)

/-- What the three calls of `malloc` of one insertion return, and what lies in the
new cell. -/
structure Blocks where
  cell : Option Addr
  key : Option Addr
  value : Option Addr
  garbage : Elem

/-- `str_hashfun`, in the arithmetic of `size_t`. -/
def strHashfun (s : List Byte) : Nat := s.foldl (fun h p => (37 * h + p.toNat) % 2 ^ 64) 0

/-- The chain a key belongs to. -/
def bucket (key : List Byte) : Fin MAP_SIZE := ⟨strHashfun key % MAP_SIZE, Nat.mod_lt _ (by decide)⟩

/-- The loop to the last cell of a chain. -/
def lastCell (cells : Heap Elem) : Nat → Addr → Except Fault (Addr × Elem)
  | 0, _ => .error .endless
  | fuel + 1, addr =>
    match cells addr with
    | none => .error .undefined
    | some elem =>
      match elem.next with
      | none => .ok (addr, elem)
      | some next => lastCell cells fuel next

/-- What `malloc` returned for the new cell is stored where the chain ends. -/
def link (map : HashMap) (index : Fin MAP_SIZE) (cell : Option Addr) (fuel : Nat) :
    Except Fault HashMap :=
  match map.elems index with
  | none => .ok { map with elems := Function.update map.elems index cell }
  | some head =>
    match lastCell map.cells fuel head with
    | .error fault => .error fault
    | .ok (last, elem) =>
      .ok { map with cells := map.cells.write last { elem with next := cell } }

/-- The new cell, with copies of the key and of the value. -/
def HashMap.fill (map : HashMap) (cell keyAddr valueAddr : Addr) (key value : List Byte) : HashMap :=
  { map with cells := map.cells.write cell ⟨some valueAddr, some keyAddr, value.length, none⟩
             blocks := (map.blocks.write keyAddr (key ++ [0])).write valueAddr value }

/-- `hashmap_insert`, the value given by its `elem_size` bytes. -/
def hashmapInsert (map : HashMap) (key value : List Byte) (answers : Blocks) (fuel : Nat) :
    Except Fault (HashMap × Int) :=
  match link map (bucket key) answers.cell fuel with
  | .error fault => .error fault
  | .ok map =>
    match answers.cell with
    -- the test after `malloc` looks at the place of the link and not at the link
    | none => .error .undefined
    | some cell =>
      match answers.key with
      | none => .ok ({ map with cells := map.cells.free cell }, -1)
      | some keyAddr =>
        match answers.value with
        | none =>
          .ok ({ map with
            cells := map.cells.write cell { answers.garbage with key := some keyAddr, value := none }
            blocks := map.blocks.free keyAddr }, -1)
        | some valueAddr => .ok (map.fill cell keyAddr valueAddr key value, 1)

/-- The loop of `get`. -/
def find (map : HashMap) (key : List Byte) : Nat → Option Addr → Except Fault (Option Elem)
  | 0, _ => .error .endless
  | fuel + 1, cur =>
    match cur with
    | none => .ok none
    | some addr =>
      match map.cells addr with
      | none => .error .undefined
      | some elem =>
        match elem.key.bind map.blocks with
        | none => .error .undefined
        | some block => if cstr block = key then .ok (some elem) else find map key fuel elem.next

/-- `get`: what it returns, and the bytes that it copies into the buffer. -/
def get (map : HashMap) (key : List Byte) (fuel : Nat) : Except Fault (Int × List Byte) :=
  match find map key fuel (map.elems (bucket key)) with
  | .error fault => .error fault
  | .ok none => .ok (0, [])
  | .ok (some elem) =>
    match elem.value.bind map.blocks with
    | none => .error .undefined
    | some block => .ok (1, block.take elem.size)

/-! ## The chains -/

/-- An entry, with the address of its cell. -/
structure Entry where
  cell : Addr
  key : List Byte
  value : List Byte

/-- The cell of an entry holds it. -/
def Stored (map : HashMap) (entry : Entry) : Prop :=
  ∃ keyAddr valueAddr next,
    map.cells entry.cell = some ⟨some valueAddr, some keyAddr, entry.value.length, next⟩ ∧
    map.blocks keyAddr = some (entry.key ++ [0]) ∧ map.blocks valueAddr = some entry.value

/-- The chains hold exactly these entries, in this order, each in the chain it
belongs to. -/
structure Represents (map : HashMap) (chains : Fin MAP_SIZE → List Entry) : Prop where
  path : ∀ i, Path Elem.next map.cells (map.elems i) ((chains i).map Entry.cell) none
  stored : ∀ i, ∀ entry ∈ chains i, Stored map entry
  home : ∀ i, ∀ entry ∈ chains i, bucket entry.key = i ∧ 0 ∉ entry.key
  apart : ∀ i, ((chains i).map Entry.cell).Nodup

variable {map : HashMap} {chains : Fin MAP_SIZE → List Entry} {key value : List Byte}
  {entry : Entry} {entries : List Entry} {start : Option Addr} {fuel : Nat}

theorem find_entries (key : List Byte) (linked : Path Elem.next map.cells start (entries.map Entry.cell) none)
    (stored : ∀ entry ∈ entries, Stored map entry) (noNul : ∀ entry ∈ entries, 0 ∉ entry.key)
    (enough : entries.length < fuel) :
    ∃ found, find map key fuel start = .ok found ∧
      match entries.find? (·.key = key) with
      | none => found = none
      | some entry => ∃ elem valueAddr, found = some elem ∧ elem.value = some valueAddr ∧
          elem.size = entry.value.length ∧ map.blocks valueAddr = some entry.value := by
  induction entries generalizing start fuel with
  | nil =>
    obtain rfl : start = none := linked
    cases fuel with
    | zero => cases enough
    | succ fuel => exact ⟨none, rfl, rfl⟩
  | cons entry entries ih =>
    obtain ⟨rfl, elem, here, rest⟩ := linked
    obtain ⟨keyAddr, valueAddr, next, cell, keyBlock, valueBlock⟩ := stored entry (by simp)
    obtain rfl : elem = _ := Option.some.inj (here.symm.trans cell)
    cases fuel with
    | zero => cases enough
    | succ fuel =>
      have block : (some keyAddr).bind map.blocks = some (entry.key ++ [0]) := keyBlock
      have read : find map key (fuel + 1) (some entry.cell) =
          if entry.key = key then .ok (some ⟨some valueAddr, some keyAddr, entry.value.length, next⟩)
          else find map key fuel next := by
        simp only [find, here, block, cstr_append_zero (noNul entry (by simp)) []]
      rw [read]
      by_cases same : entry.key = key
      · rw [if_pos same, List.find?_cons_of_pos (by simpa using same)]
        exact ⟨_, rfl, _, valueAddr, rfl, rfl, rfl, valueBlock⟩
      · rw [if_neg same, List.find?_cons_of_neg (by simpa using same)]
        exact ih rest (fun entry member => stored entry (by simp [member]))
          (fun entry member => noNul entry (by simp [member])) (by simpa using enough)

/-- The loop to the last cell walks a path that ends there. -/
theorem lastCell_walks {cells : Heap Elem} {addr last : Addr} {elem : Elem}
    (walked : lastCell cells fuel addr = .ok (last, elem)) :
    ∃ path, Path Elem.next cells (some addr) path none ∧ last ∈ path ∧ cells last = some elem ∧
      elem.next = none := by
  induction fuel generalizing addr with
  | zero => cases walked
  | succ fuel ih =>
    rw [lastCell] at walked
    cases found : cells addr with
    | none =>
      rw [found] at walked
      cases walked
    | some here =>
      simp only [found] at walked
      cases next : here.next with
      | none =>
        simp only [next] at walked
        cases walked
        exact ⟨[last], ⟨rfl, elem, found, next⟩, List.mem_singleton_self last, found, next⟩
      | some other =>
        simp only [next] at walked
        obtain ⟨path, linked, member, live, ends⟩ := ih walked
        exact ⟨addr :: path, ⟨rfl, here, found, by rwa [next]⟩, List.mem_cons_of_mem _ member, live, ends⟩

theorem lastCell_entries {last : Entry}
    (linked : Path Elem.next map.cells start ((entries ++ [last]).map Entry.cell) none)
    (enough : entries.length < fuel) :
    ∃ head elem, start = some head ∧ lastCell map.cells fuel head = .ok (last.cell, elem) ∧
      map.cells last.cell = some elem := by
  induction entries generalizing start fuel with
  | nil =>
    obtain ⟨rfl, elem, here, ends⟩ := linked
    have ends : elem.next = none := ends
    cases fuel with
    | zero => cases enough
    | succ fuel => exact ⟨last.cell, elem, rfl, by simp only [lastCell, here, ends], here⟩
  | cons entry entries ih =>
    obtain ⟨rfl, elem, here, rest⟩ := linked
    cases fuel with
    | zero => cases enough
    | succ fuel =>
      obtain ⟨next, elem', follows, found, live⟩ := ih rest (by simpa using enough)
      exact ⟨entry.cell, elem', rfl, by simp only [lastCell, here, follows, found], live⟩

theorem Represents.live (rep : Represents map chains) {i : Fin MAP_SIZE} {addr : Addr}
    (member : addr ∈ (chains i).map Entry.cell) : map.cells addr ≠ none := by
  obtain ⟨elem, found⟩ := path_live (rep.path i) member
  rw [found]
  exact Option.some_ne_none elem

/-- A cell lies in one chain only, as its key belongs to one chain only. -/
theorem Represents.alone (rep : Represents map chains) {i j : Fin MAP_SIZE} {other : Entry}
    (here : entry ∈ chains i) (there : other ∈ chains j) (same : entry.cell = other.cell) : i = j := by
  obtain ⟨keyAddr, _, _, cell, block, -⟩ := rep.stored i entry here
  obtain ⟨keyAddr', _, _, cell', block', -⟩ := rep.stored j other there
  rw [same, cell'] at cell
  have address : keyAddr' = keyAddr := by simp only [Option.some.injEq, Elem.mk.injEq] at cell; exact cell.2.1
  rw [address, block] at block'
  have keys : entry.key = other.key := by simpa using block'
  rw [← (rep.home i entry here).1, keys, (rep.home j other there).1]

/-- A new link out of its cell leaves an entry as it is. -/
theorem Stored.relink (stored : Stored map entry) {last : Addr} {elem : Elem} (live : map.cells last = some elem)
    (next : Option Addr) : Stored { map with cells := map.cells.write last { elem with next := next } } entry := by
  obtain ⟨keyAddr, valueAddr, old, found, keyBlock, valueBlock⟩ := stored
  by_cases same : entry.cell = last
  · refine ⟨keyAddr, valueAddr, next, ?_, keyBlock, valueBlock⟩
    rw [same, live] at found
    rw [same, Option.some.inj found]
    exact Heap.write_self
  · exact ⟨keyAddr, valueAddr, old, (Heap.write_of_ne same).trans found, keyBlock, valueBlock⟩

/-- A new cell leaves the entries in other cells as they are. -/
theorem Stored.fill (stored : Stored map entry) {cell keyAddr valueAddr : Addr} (other : entry.cell ≠ cell)
    (keyFree : map.blocks keyAddr = none) (valueFree : map.blocks valueAddr = none) :
    Stored (map.fill cell keyAddr valueAddr key value) entry := by
  obtain ⟨keyAddr', valueAddr', next, found, keyBlock, valueBlock⟩ := stored
  have kept : ∀ addr block, map.blocks addr = some block →
      ((map.blocks.write keyAddr (key ++ [0])).write valueAddr value) addr = some block := by
    intro addr block there
    have notValue : addr ≠ valueAddr := fun same => by rw [same, valueFree] at there; cases there
    have notKey : addr ≠ keyAddr := fun same => by rw [same, keyFree] at there; cases there
    rw [Heap.write_of_ne notValue, Heap.write_of_ne notKey, there]
  exact ⟨keyAddr', valueAddr', next, (Heap.write_of_ne other).trans found, kept _ _ keyBlock,
    kept _ _ valueBlock⟩

theorem stored_fill (map : HashMap) (cell : Addr) {keyAddr valueAddr : Addr} (apart : keyAddr ≠ valueAddr)
    (key value : List Byte) : Stored (map.fill cell keyAddr valueAddr key value) ⟨cell, key, value⟩ :=
  ⟨keyAddr, valueAddr, none, Heap.write_self, (Heap.write_of_ne apart).trans Heap.write_self, Heap.write_self⟩

/-- The chain of the key now ends in the new cell, and the others are as they were. -/
theorem link_chains (rep : Represents map chains) {i : Fin MAP_SIZE} (cell : Addr)
    (enough : (chains i).length ≤ fuel) :
    ∃ map', link map i (some cell) fuel = .ok map' ∧ map'.blocks = map.blocks ∧
      (∀ j, Path Elem.next map'.cells (map'.elems j) ((chains j).map Entry.cell)
        (if j = i then some cell else none)) ∧
      (∀ j, ∀ entry ∈ chains j, Stored map' entry) ∧
      ∀ addr, map.cells addr = none → map'.cells addr = none := by
  rcases List.eq_nil_or_concat (chains i) with empty | ⟨init, last, whole⟩
  · have start : map.elems i = none := by simpa [empty, LinkedList.Path] using rep.path i
    refine ⟨{ map with elems := Function.update map.elems i (some cell) }, by simp only [link, start],
      rfl, fun j => ?_, rep.stored, fun _ => id⟩
    by_cases same : j = i
    · subst same
      simp [empty, LinkedList.Path]
    · simpa [same] using rep.path j
  · rw [List.concat_eq_append] at whole
    have linked := rep.path i
    rw [whole] at linked
    have short : init.length < fuel := by simpa [whole] using enough
    obtain ⟨head, elem, start, found, live⟩ := lastCell_entries linked short
    have member : last ∈ chains i := by simp [whole]
    refine ⟨{ map with cells := map.cells.write last.cell { elem with next := some cell } },
      by simp only [link, start, found], rfl, fun j => ?_,
      fun j entry among => (rep.stored j entry among).relink live _, fun addr free => ?_⟩
    · obtain ⟨-, -, -, -, ends⟩ := lastCell_walks found
      have met : last.cell ∈ (chains j).map Entry.cell ↔ j = i := by
        constructor
        · intro among
          obtain ⟨other, there, address⟩ := List.mem_map.mp among
          exact rep.alone there member address
        · rintro rfl
          exact List.mem_map_of_mem member
      simpa only [met] using path_hang (rep.path j) live ends { elem with next := some cell }
    · have apart : addr ≠ last.cell := fun same => by rw [same, live] at free; cases free
      exact (Heap.write_of_ne apart).trans free

/-- What `malloc` returned is not in use, and the key and the value do not overlap. -/
structure Free (map : HashMap) (cell keyAddr valueAddr : Addr) : Prop where
  cell : map.cells cell = none
  key : map.blocks keyAddr = none
  value : map.blocks valueAddr = none
  apart : keyAddr ≠ valueAddr

/-- An entry is added at the end of its chain; what `malloc` did not return stays
as free as it was. -/
theorem hashmapInsert_represents (rep : Represents map chains) (noNul : 0 ∉ key) (value : List Byte)
    {cell keyAddr valueAddr : Addr} (free : Free map cell keyAddr valueAddr) (garbage : Elem)
    (enough : (chains (bucket key)).length ≤ fuel) :
    ∃ map', hashmapInsert map key value ⟨some cell, some keyAddr, some valueAddr, garbage⟩ fuel =
        .ok (map', 1) ∧
      Represents map' (Function.update chains (bucket key)
        (chains (bucket key) ++ [⟨cell, key, value⟩])) ∧
      (∀ addr, addr ≠ cell → map.cells addr = none → map'.cells addr = none) ∧
      ∀ addr, addr ≠ keyAddr → addr ≠ valueAddr → map'.blocks addr = map.blocks addr := by
  obtain ⟨map', linked, blocks, path, stored, unused⟩ := link_chains rep cell enough
  have outside : ∀ j, cell ∉ (chains j).map Entry.cell := fun j among => rep.live among free.cell
  refine ⟨map'.fill cell keyAddr valueAddr key value, by simp only [hashmapInsert, linked],
    ⟨fun j => ?_, fun j entry among => ?_, fun j entry among => ?_, fun j => ?_⟩,
    fun addr other unusedBefore => ?_, fun addr notKey notValue => ?_⟩
  · by_cases same : j = bucket key
    · subst same
      have start := path (bucket key)
      rw [if_pos rfl] at start
      simp only [Function.update_self, List.map_append, List.map_cons, List.map_nil]
      exact path_append.mpr ⟨some cell, path_write start (outside _), rfl, _, Heap.write_self, rfl⟩
    · have start := path j
      rw [if_neg same] at start
      simp only [Function.update_of_ne same]
      exact path_write start (outside j)
  · have old : ∀ entry ∈ chains j, Stored (map'.fill cell keyAddr valueAddr key value) entry :=
      fun entry among => (stored j entry among).fill
        (fun same => outside j (same ▸ List.mem_map_of_mem among))
        (by rw [blocks, free.key]) (by rw [blocks, free.value])
    by_cases same : j = bucket key
    · subst same
      simp only [Function.update_self, List.mem_append, List.mem_singleton] at among
      rcases among with before | rfl
      · exact old entry before
      · exact stored_fill map' cell free.apart key value
    · rw [Function.update_of_ne same] at among
      exact old entry among
  · by_cases same : j = bucket key
    · subst same
      simp only [Function.update_self, List.mem_append, List.mem_singleton] at among
      rcases among with before | rfl
      · exact rep.home _ entry before
      · exact ⟨rfl, noNul⟩
    · rw [Function.update_of_ne same] at among
      exact rep.home j entry among
  · by_cases same : j = bucket key
    · subst same
      simpa using (rep.apart (bucket key)).concat (outside (bucket key))
    · rw [Function.update_of_ne same]
      exact rep.apart j
  · exact (Heap.write_of_ne other).trans (unused addr unusedBefore)
  · exact (Heap.write_of_ne notValue).trans ((Heap.write_of_ne notKey).trans (by rw [blocks]))

/-! ## One list of entries -/

/-- The map stands for these keys and values, in the order of their insertion:
each chain holds those that belong to it. -/
def StandsFor (map : HashMap) (content : List (List Byte × List Byte)) : Prop :=
  ∃ chains, Represents map chains ∧
    ∀ i, (chains i).map (fun entry => (entry.key, entry.value)) =
      content.filter fun pair => bucket pair.1 = i

variable {content : List (List Byte × List Byte)}

theorem standsFor_empty (empty : ∀ i, map.elems i = none) : StandsFor map [] :=
  ⟨fun _ => [], ⟨fun i => empty i, by simp, by simp, by simp⟩, by simp⟩

theorem chain_length {entries : List Entry} {i : Fin MAP_SIZE}
    (held : entries.map (fun entry => (entry.key, entry.value)) =
      content.filter fun pair => bucket pair.1 = i) : entries.length ≤ content.length := by
  have lengths := congrArg List.length held
  rw [List.length_map] at lengths
  rw [lengths]
  exact List.length_filter_le ..

/-- An insertion appends, whether or not there is such a key already. -/
theorem hashmapInsert_appends (stands : StandsFor map content) (noNul : 0 ∉ key) (value : List Byte)
    {cell keyAddr valueAddr : Addr} (free : Free map cell keyAddr valueAddr) (garbage : Elem)
    (enough : content.length ≤ fuel) :
    ∃ map', hashmapInsert map key value ⟨some cell, some keyAddr, some valueAddr, garbage⟩ fuel =
        .ok (map', 1) ∧
      StandsFor map' (content ++ [(key, value)]) ∧
      (∀ addr, addr ≠ cell → map.cells addr = none → map'.cells addr = none) ∧
      ∀ addr, addr ≠ keyAddr → addr ≠ valueAddr → map'.blocks addr = map.blocks addr := by
  obtain ⟨chains, rep, held⟩ := stands
  obtain ⟨map', inserted, rep', cells, blocks⟩ := hashmapInsert_represents rep noNul value free
    garbage ((chain_length (held _)).trans enough)
  refine ⟨map', inserted, ⟨_, rep', fun i => ?_⟩, cells, blocks⟩
  rw [List.filter_append]
  by_cases same : i = bucket key
  · subst same
    rw [Function.update_self, List.map_append, held]
    simp
  · rw [Function.update_of_ne same, held]
    simp [Ne.symm same]

/-- Only what belongs to its own chain matters to a key. -/
theorem find_own {T : Type*} (name : T → List Byte) (key : List Byte) (xs : List T) :
    xs.find? (name · = key) = (xs.filter fun x => bucket (name x) = bucket key).find? (name · = key) := by
  rw [List.find?_filter]
  congr 1
  funext x
  by_cases same : name x = key <;> simp [same]

/-- A lookup finds the first value that was inserted under the key. -/
theorem get_finds (stands : StandsFor map content) (enough : content.length < fuel) (key : List Byte) :
    get map key fuel = .ok (match content.find? (·.1 = key) with
      | none => (0, [])
      | some pair => (1, pair.2)) := by
  obtain ⟨chains, rep, held⟩ := stands
  obtain ⟨found, walked, which⟩ := find_entries key (rep.path (bucket key))
    (rep.stored (bucket key)) (fun entry member => (rep.home _ entry member).2)
    ((chain_length (held _)).trans_lt enough)
  rw [find_own Prod.fst, ← held, List.find?_map]
  simp only [get, walked, Function.comp_def]
  cases first : (chains (bucket key)).find? (·.key = key) with
  | none =>
    rw [first] at which
    rw [which]
    rfl
  | some entry =>
    rw [first] at which
    obtain ⟨elem, valueAddr, rfl, value, size, block⟩ := which
    have read : elem.value.bind map.blocks = some entry.value := by rw [value]; exact block
    simp only [read, size, List.take_length, Option.map_some]

end LocalServer.Yml
