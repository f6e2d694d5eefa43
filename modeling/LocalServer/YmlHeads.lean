import LocalServer.YmlComments
import LocalServer.YmlMutex

/-! Insertions behind heads that were never set. A head may be any address, and two
heads may lead to one cell. But when no cell of a map was in memory before, a chain
that an insertion walked to its end has its own entries in their order, so that a
lookup still finds the first entry of its key. -/
namespace LocalServer.Yml
open LinkedList Regex
open CList (Fault)

/-- What `malloc` returns is not in use, whenever it returns something. -/
structure Fresh (memory : Memory) : Prop where
  cell : ∀ n, ∀ addr ∈ (memory.supply n).cell, memory.map.cells addr = none
  key : ∀ n, ∀ addr ∈ (memory.supply n).key, memory.map.blocks addr = none
  value : ∀ n, ∀ addr ∈ (memory.supply n).value, memory.map.blocks addr = none
  cells : ∀ m n addr, m ≠ n → addr ∈ (memory.supply m).cell → addr ∉ (memory.supply n).cell
  keys : ∀ m n addr, m ≠ n → addr ∈ (memory.supply m).key → addr ∉ (memory.supply n).key
  values : ∀ m n addr, m ≠ n → addr ∈ (memory.supply m).value → addr ∉ (memory.supply n).value
  apart : ∀ m n addr, addr ∈ (memory.supply m).key → addr ∉ (memory.supply n).value

theorem Plenty.fresh {memory : Memory} (plenty : Plenty memory) : Fresh memory where
  cell n addr member := by
    obtain ⟨cell, key, value, garbage, found, free⟩ := plenty.found n
    rw [found] at member
    exact Option.some.inj member ▸ free.cell
  key n addr member := by
    obtain ⟨cell, key, value, garbage, found, free⟩ := plenty.found n
    rw [found] at member
    exact Option.some.inj member ▸ free.key
  value n addr member := by
    obtain ⟨cell, key, value, garbage, found, free⟩ := plenty.found n
    rw [found] at member
    exact Option.some.inj member ▸ free.value
  cells m n addr other here there := plenty.cells m n other (here.trans there.symm)
  keys m n addr other here there := plenty.keys m n other (here.trans there.symm)
  values m n addr other here there := plenty.values m n other (here.trans there.symm)
  apart m n addr here there := plenty.apart m n (here.trans there.symm)

/-! ## Chains -/

/-- A chain that ends, with the entries that belong to it in the order of their
insertion; others may have come into it. -/
structure Chain (map : HashMap) (entries : List Entry) (i : Fin MAP_SIZE) (chain : List Entry) : Prop where
  path : Path Elem.next map.cells (map.elems i) (chain.map Entry.cell) none
  among : ∀ entry ∈ chain, entry ∈ entries
  own : chain.filter (fun entry => bucket entry.key = i) = entries.filter fun entry => bucket entry.key = i

/-- The cells in memory are those of these entries, and the chains that belong to one
of them end. -/
structure Grown (map : HashMap) (entries : List Entry) : Prop where
  live : ∀ addr, map.cells addr ≠ none → addr ∈ entries.map Entry.cell
  stored : ∀ entry ∈ entries, Stored map entry
  noNul : ∀ entry ∈ entries, 0 ∉ entry.key
  apart : (entries.map Entry.cell).Nodup
  chains : ∀ i, (∃ entry ∈ entries, bucket entry.key = i) → ∃ chain, Chain map entries i chain

variable {map map' : HashMap} {entries chain : List Entry} {i j : Fin MAP_SIZE} {cell : Addr}
  {start : Option Addr} {path : List Addr} {fuel : Nat} {key value : List Byte}

/-- A map without cells, wherever its heads lead. -/
theorem grown_bare (bare : ∀ addr, map.cells addr = none) : Grown map [] where
  live addr live := absurd (bare addr) live
  stored _ member := absurd member List.not_mem_nil
  noNul _ member := absurd member List.not_mem_nil
  apart := List.nodup_nil
  chains _ := fun ⟨_, member, _⟩ => absurd member List.not_mem_nil

/-- A path through live cells is one through entries. -/
theorem Grown.entries_of_path (grown : Grown map entries)
    (linked : Path Elem.next map.cells start path none) :
    ∃ chain : List Entry, path = chain.map Entry.cell ∧ ∀ entry ∈ chain, entry ∈ entries := by
  induction path generalizing start with
  | nil => exact ⟨[], rfl, fun _ member => absurd member List.not_mem_nil⟩
  | cons addr path ih =>
    obtain ⟨-, elem, found, rest⟩ := linked
    obtain ⟨entry, member, rfl⟩ := List.mem_map.mp (grown.live addr (by simp [found]))
    obtain ⟨chain, rfl, among⟩ := ih rest
    refine ⟨entry :: chain, rfl, fun other inside => ?_⟩
    rcases List.mem_cons.mp inside with rfl | later
    · exact member
    · exact among other later

/-- Entries are told apart by their cells. -/
theorem Grown.eq_of_cells (grown : Grown map entries) {known : List Entry}
    (same : chain.map Entry.cell = known.map Entry.cell) (among : ∀ entry ∈ chain, entry ∈ entries)
    (among' : ∀ entry ∈ known, entry ∈ entries) : chain = known := by
  induction chain generalizing known with
  | nil => exact (List.map_eq_nil_iff.mp same.symm).symm
  | cons entry chain ih =>
    cases known with
    | nil => cases same
    | cons other known =>
      obtain ⟨head, tail⟩ := List.cons.inj same
      rw [List.inj_on_of_nodup_map grown.apart (among entry List.mem_cons_self)
          (among' other List.mem_cons_self) head,
        ih tail (fun entry member => among entry (List.mem_cons_of_mem _ member))
          fun entry member => among' entry (List.mem_cons_of_mem _ member)]

/-- Any path that ends is the whole chain. -/
theorem Grown.chain_of_path (grown : Grown map entries)
    (linked : Path Elem.next map.cells (map.elems i) path none) :
    ∃ chain, path = chain.map Entry.cell ∧ Chain map entries i chain := by
  obtain ⟨chain, rfl, among⟩ := grown.entries_of_path linked
  refine ⟨chain, rfl, linked, among, ?_⟩
  by_cases used : ∃ entry ∈ entries, bucket entry.key = i
  · obtain ⟨known, same⟩ := grown.chains i used
    rw [grown.eq_of_cells (path_unique linked same.path) among same.among, same.own]
  · have none : ∀ entry ∈ entries, ¬ bucket entry.key = i := fun entry member here =>
      used ⟨entry, member, here⟩
    rw [List.filter_eq_nil_iff.mpr (by simpa using fun entry member => none entry (among entry member)),
      List.filter_eq_nil_iff.mpr (by simpa using none)]

/-! ## An insertion -/

/-- A chain that ended goes on to the new cell, or ends as before. -/
def Hooked (map map' : HashMap) (cell : Addr) (j : Fin MAP_SIZE) : Prop :=
  ∀ path, Path Elem.next map.cells (map.elems j) path none →
    Path Elem.next map'.cells (map'.elems j) path (some cell) ∨
      Path Elem.next map'.cells (map'.elems j) path none

/-- What `link` does to a map: it walks one chain to its end, and all that end there
go on to the new cell. -/
theorem link_hooks (linked : link map i (some cell) fuel = .ok map') :
    (∃ path, Path Elem.next map.cells (map.elems i) path none ∧
        Path Elem.next map'.cells (map'.elems i) path (some cell)) ∧
      (∀ j, Hooked map map' cell j) ∧ map'.blocks = map.blocks ∧
      (∀ addr, map'.cells addr = none ↔ map.cells addr = none) ∧
      ∀ entry, Stored map entry → Stored map' entry := by
  rw [link] at linked
  cases start : map.elems i with
  | none =>
    simp only [start] at linked
    cases linked
    refine ⟨⟨[], rfl, Function.update_self ..⟩, fun j path before => ?_, rfl, fun addr => Iff.rfl,
      fun entry => id⟩
    by_cases same : j = i
    · subst same
      rw [start] at before
      obtain rfl : path = [] := path_unique before rfl
      exact .inl (Function.update_self ..)
    · refine .inr ?_
      simp only [Function.update_of_ne same]
      exact before
  | some head =>
    simp only [start] at linked
    cases walked : lastCell map.cells fuel head with
    | error fault =>
      rw [walked] at linked
      cases linked
    | ok found =>
      obtain ⟨last, elem⟩ := found
      simp only [walked] at linked
      cases linked
      obtain ⟨path, before, member, live, ends⟩ := lastCell_walks walked
      refine ⟨⟨path, before, ?_⟩, fun j other before => ?_, rfl, fun addr => ?_, fun entry stored =>
        stored.relink live _⟩
      · have hung := path_hang before live ends { elem with next := some cell }
        rw [if_pos member] at hung
        rw [start]
        exact hung
      · have hung := path_hang before live ends { elem with next := some cell }
        split at hung
        · exact .inl hung
        · exact .inr hung
      · change map.cells.write last _ addr = none ↔ map.cells addr = none
        by_cases same : addr = last
        · rw [same, live, Heap.write_self]
          simp
        · rw [Heap.write_of_ne same]

variable {keyAddr valueAddr : Addr}

theorem Stored.cell_live {entry : Entry} (stored : Stored map entry) : map.cells entry.cell ≠ none := by
  obtain ⟨keyAddr, valueAddr, next, found, -⟩ := stored
  rw [found]
  exact Option.some_ne_none _

/-- A chain that goes on to the new cell has the new entry behind it. -/
theorem Chain.snoc (chained : Chain map entries j chain) (unused : cell ∉ chain.map Entry.cell)
    (hooked : Path Elem.next map'.cells (map'.elems j) (chain.map Entry.cell) (some cell))
    (key value : List Byte) :
    Chain (map'.fill cell keyAddr valueAddr key value) (entries ++ [⟨cell, key, value⟩]) j
      (chain ++ [⟨cell, key, value⟩]) where
  path := by
    rw [List.map_append]
    exact path_append.mpr ⟨some cell, path_write hooked unused, rfl, _, Heap.write_self, rfl⟩
  among entry member := by
    rcases List.mem_append.mp member with before | new
    · exact List.mem_append_left _ (chained.among entry before)
    · exact List.mem_append_right _ new
  own := by rw [List.filter_append, List.filter_append, chained.own]

/-- A chain that ends as before is none of the new entry. -/
theorem Chain.stay (chained : Chain map entries j chain) (unused : cell ∉ chain.map Entry.cell)
    (ended : Path Elem.next map'.cells (map'.elems j) (chain.map Entry.cell) none)
    (other : bucket key ≠ j) (value : List Byte) :
    Chain (map'.fill cell keyAddr valueAddr key value) (entries ++ [⟨cell, key, value⟩]) j chain where
  path := path_write ended unused
  among entry member := List.mem_append_left _ (chained.among entry member)
  own := by
    rw [List.filter_append, chained.own]
    simp [other]

/-- An insertion that succeeds adds its entry. -/
theorem grown_insert (grown : Grown map entries) (noNul : 0 ∉ key) (value : List Byte) (unused : map.cells cell = none)
    (keyFree : map.blocks keyAddr = none) (valueFree : map.blocks valueAddr = none)
    (apart : keyAddr ≠ valueAddr) (linked : link map (bucket key) (some cell) fuel = .ok map') :
    Grown (map'.fill cell keyAddr valueAddr key value) (entries ++ [⟨cell, key, value⟩]) := by
  obtain ⟨⟨path, ended, hooked⟩, hooks, blocks, live, stored⟩ := link_hooks linked
  have outside : cell ∉ entries.map Entry.cell := by
    intro member
    obtain ⟨entry, among, rfl⟩ := List.mem_map.mp member
    exact (grown.stored entry among).cell_live unused
  have unmet : ∀ {chain : List Entry}, (∀ entry ∈ chain, entry ∈ entries) → cell ∉ chain.map Entry.cell := by
    intro chain among member
    obtain ⟨entry, inside, rfl⟩ := List.mem_map.mp member
    exact outside (List.mem_map_of_mem (among entry inside))
  refine ⟨fun addr used => ?_, fun entry member => ?_, fun entry member => ?_, ?_, fun j used => ?_⟩
  · rw [List.map_append, List.mem_append]
    by_cases same : addr = cell
    · exact .inr (List.mem_singleton.mpr same)
    · refine .inl (grown.live addr fun free => used ?_)
      exact (Heap.write_of_ne same).trans ((live addr).mpr free)
  · rcases List.mem_append.mp member with before | new
    · exact (stored entry (grown.stored entry before)).fill
        (fun same => outside (same ▸ List.mem_map_of_mem before))
        (by rw [blocks, keyFree]) (by rw [blocks, valueFree])
    · rw [List.mem_singleton.mp new]
      exact stored_fill map' cell apart key value
  · rcases List.mem_append.mp member with before | new
    · exact grown.noNul entry before
    · rw [List.mem_singleton.mp new]
      exact noNul
  · simpa using grown.apart.concat outside
  · by_cases own : bucket key = j
    · subst own
      obtain ⟨chain, rfl, chained⟩ := grown.chain_of_path ended
      exact ⟨_, chained.snoc (unmet chained.among) hooked key value⟩
    · obtain ⟨entry, member, home⟩ := used
      have before : entry ∈ entries := by
        rcases List.mem_append.mp member with before | new
        · exact before
        · rw [List.mem_singleton.mp new] at home
          exact absurd home own
      obtain ⟨chain, chained⟩ := grown.chains j ⟨entry, before, home⟩
      rcases hooks j _ chained.path with hung | ends
      · exact ⟨_, chained.snoc (unmet chained.among) hung key value⟩
      · exact ⟨_, chained.stay (unmet chained.among) ends own value⟩

end LocalServer.Yml
