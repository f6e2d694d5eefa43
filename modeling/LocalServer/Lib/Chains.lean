import LocalServer.Lib.LinkedList

/-! A heap that is made up of chains: every cell lies in exactly one of them. A new cell
becomes a chain of its own or goes to the end of one that is there. -/
namespace LocalServer.LinkedList

namespace Heap

variable {α : Type*} {heap : Heap α} {addr : Addr} {addrs others : List Addr}

/-- The heap without these addresses. -/
def drop (heap : Heap α) (addrs : List Addr) : Heap α := fun addr => if addr ∈ addrs then none else heap addr

theorem drop_nil : heap.drop [] = heap := funext fun _ => if_neg List.not_mem_nil

theorem drop_of_mem (member : addr ∈ addrs) : heap.drop addrs addr = none := if_pos member

theorem drop_of_not_mem (outside : addr ∉ addrs) : heap.drop addrs addr = heap addr := if_neg outside

theorem drop_append : heap.drop (addrs ++ others) = (heap.drop addrs).drop others := by
  funext addr
  by_cases first : addr ∈ addrs <;> by_cases second : addr ∈ others <;> simp [drop, first, second]

theorem free_drop : (heap.free addr).drop addrs = heap.drop (addr :: addrs) := by
  funext other
  by_cases same : other = addr
  · subst same
    simp [drop]
  · simp [drop, same, free_of_ne same]

end Heap

variable {Cell ι : Type*} {next : Cell → Option Addr} {heap : Heap Cell} {start : ι → Option Addr}
  {paths : ι → List Addr} {i : ι} {addr last : Addr} {cell old : Cell}

/-- Each chain ends, no two of them meet, and all cells lie in one. -/
structure Chains (next : Cell → Option Addr) (heap : Heap Cell) (start : ι → Option Addr)
    (paths : ι → List Addr) : Prop where
  path : ∀ i, Path next heap (start i) (paths i) none
  apart : ∀ i j addr, addr ∈ paths i → addr ∈ paths j → i = j
  cover : ∀ addr, heap addr ≠ none → ∃ i, addr ∈ paths i

theorem chains_empty (bare : ∀ addr, heap addr = none) (empty : ∀ i, start i = none) :
    Chains next heap start fun _ => [] where
  path := empty
  apart _ _ _ member := absurd member List.not_mem_nil
  cover addr live := absurd (bare addr) live

theorem Chains.live (chains : Chains next heap start paths) (member : addr ∈ paths i) : heap addr ≠ none := by
  obtain ⟨cell, found⟩ := path_live (chains.path i) member
  rw [found]
  exact Option.some_ne_none cell

/-- Nothing lies on a path that starts nowhere. -/
theorem path_nowhere {path : List Addr} (linked : Path next heap none path none) : path = [] :=
  path_unique linked rfl

variable [DecidableEq ι]

theorem mem_update {path : List Addr} {j : ι} (member : addr ∈ Function.update paths i path j) :
    (j = i ∧ addr ∈ path) ∨ (j ≠ i ∧ addr ∈ paths j) := by
  by_cases same : j = i
  · subst same
    rw [Function.update_self] at member
    exact .inl ⟨rfl, member⟩
  · rw [Function.update_of_ne same] at member
    exact .inr ⟨same, member⟩

/-- A new cell where there was no chain. -/
theorem Chains.begin (chains : Chains next heap start paths) (empty : start i = none) (unused : heap addr = none)
    (ends : next cell = none) :
    Chains next (heap.write addr cell) (Function.update start i (some addr)) (Function.update paths i [addr]) where
  path j := by
    by_cases same : j = i
    · subst same
      rw [Function.update_self, Function.update_self]
      exact ⟨rfl, cell, Heap.write_self, ends⟩
    · rw [Function.update_of_ne same, Function.update_of_ne same]
      exact path_write (chains.path j) fun member => chains.live member unused
  apart j k other here there := by
    rcases mem_update here with ⟨rfl, first⟩ | ⟨-, first⟩ <;> rcases mem_update there with ⟨rfl, second⟩ | ⟨-, second⟩
    · rfl
    · exact absurd unused (List.mem_singleton.mp first ▸ chains.live second)
    · exact absurd unused (List.mem_singleton.mp second ▸ chains.live first)
    · exact chains.apart j k other first second
  cover other live := by
    by_cases same : other = addr
    · exact ⟨i, by rw [Function.update_self, same]; exact List.mem_singleton_self addr⟩
    · rw [Heap.write_of_ne same] at live
      obtain ⟨j, member⟩ := chains.cover other live
      have apart : j ≠ i := by
        rintro rfl
        have linked := chains.path j
        rw [empty] at linked
        rw [path_nowhere linked] at member
        cases member
      exact ⟨j, by rwa [Function.update_of_ne apart]⟩

/-- A new cell behind the last one of a chain. -/
theorem Chains.hang (chains : Chains next heap start paths) (found : heap last = some old) (ends : next old = none)
    (unused : heap addr = none) {linked : Cell} (links : next linked = some addr) (ends' : next cell = none) :
    ∃ i, last ∈ paths i ∧
      Chains next ((heap.write last linked).write addr cell) start (Function.update paths i (paths i ++ [addr])) := by
  obtain ⟨i, member⟩ := chains.cover last (by rw [found]; exact Option.some_ne_none old)
  have outside (j : ι) : addr ∉ paths j := fun member => chains.live member unused
  refine ⟨i, member, fun j => ?_, fun j k other here there => ?_, fun other live => ?_⟩
  · have hung := path_hang (chains.path j) found ends linked
    by_cases same : j = i
    · subst same
      rw [if_pos member, links] at hung
      rw [Function.update_self]
      exact path_append.mpr ⟨some addr, path_write hung (outside j), rfl, cell, Heap.write_self, ends'⟩
    · rw [if_neg fun also => same (chains.apart j i last also member)] at hung
      rw [Function.update_of_ne same]
      exact path_write hung (outside j)
  · rcases mem_update here with ⟨rfl, first⟩ | ⟨-, first⟩ <;> rcases mem_update there with ⟨rfl, second⟩ | ⟨-, second⟩
    · rfl
    · rcases List.mem_append.mp first with before | new
      · exact chains.apart j k other before second
      · exact absurd (List.mem_singleton.mp new ▸ second) (outside k)
    · rcases List.mem_append.mp second with before | new
      · exact chains.apart j k other first before
      · exact absurd (List.mem_singleton.mp new ▸ first) (outside j)
    · exact chains.apart j k other first second
  · by_cases new : other = addr
    · exact ⟨i, by rw [Function.update_self, new]; exact List.mem_append_right _ (List.mem_singleton_self addr)⟩
    · rw [Heap.write_of_ne new] at live
      have before : heap other ≠ none := by
        by_cases same : other = last
        · rw [same, found]
          exact Option.some_ne_none old
        · rwa [Heap.write_of_ne same] at live
      obtain ⟨j, among⟩ := chains.cover other before
      by_cases same : j = i
      · subst same
        exact ⟨j, by rw [Function.update_self]; exact List.mem_append_left _ among⟩
      · exact ⟨j, by rwa [Function.update_of_ne same]⟩

end LocalServer.LinkedList
