import LocalServer.YmlChains

/-! The constructor of the parser. It loads the file into a string and takes memory
for the map, but stores nothing in it: the chains start with what lay there. -/
namespace LocalServer.Yml
open LinkedList
open CList (Fault)

def YML_INVALID_POINTER : Int := -1
def YML_NOT_ENOUGH_MEMORY : Int := -2
def YML_INVALID_FILE : Int := -3
def YML_FILE_ERROR : Int := -4

/-- How the calls of `init_yml_parser` to the system end. Memory comes with what
lies in it, a read with the number of bytes that it gives. -/
structure Startup where
  parser : Bool
  semaphore : Bool
  map : Option (Fin MAP_SIZE → Option Addr)
  file : List Byte → Option (List Byte)
  measured : Bool
  rewound : Bool
  content : Option (List Byte)
  read : Option Nat

/-- The bytes of the file behind each other, then those that already lay in the
block, and the terminator behind `length` bytes. -/
def load (file garbage : List Byte) (read : Nat) : List Byte :=
  let chunk := file.take read
  (chunk ++ garbage.drop chunk.length).take file.length ++ [0]

theorem load_length (file garbage : List Byte) (read : Nat) :
    (cstr (load file garbage read)).length ≤ file.length := by
  have short : ∀ bytes : List Byte, (cstr (bytes ++ [0])).length ≤ bytes.length := by
    intro bytes
    induction bytes with
    | nil => exact Nat.le_refl 0
    | cons c bytes ih =>
      rw [List.cons_append, cstr, List.takeWhile_cons]
      split
      · exact Nat.succ_le_succ ih
      · exact Nat.zero_le _
  exact (short _).trans (List.length_take_le ..)

/-- A file that is read whole is the string that is loaded. -/
theorem load_whole {file : List Byte} (noNul : 0 ∉ file) (garbage : List Byte) :
    cstr (load file garbage file.length) = file := by
  rw [load, List.take_length, List.take_left, cstr_append_zero noNul]

/-- A call that returns something, or the parser is not made. -/
def orFail {α : Type*} (answer : Option α) (error : Int) : Except Int α :=
  match answer with
  | none => .error error
  | some a => .ok a

/-- A call that works, or the parser is not made. -/
def check (works : Bool) (error : Int) : Except Int Unit :=
  if works then .ok () else .error error

/-- `init_yml_parser`, in memory that holds these cells and blocks. An error is the
value that is stored where `error` points. -/
def initYmlParser (path : Option (List Byte)) (startup : Startup) (cells : Heap Elem)
    (blocks : Heap (List Byte)) (supply : Nat → Blocks) : Except Int Parser := do
  let path ← orFail path YML_INVALID_POINTER
  check startup.parser YML_NOT_ENOUGH_MEMORY
  check startup.semaphore YML_SEM_ERROR
  let elems ← orFail startup.map YML_NOT_ENOUGH_MEMORY
  let file ← orFail (startup.file path) YML_INVALID_FILE
  check startup.measured YML_FILE_ERROR
  check startup.rewound YML_FILE_ERROR
  let garbage ← orFail startup.content YML_NOT_ENOUGH_MEMORY
  -- `malloc` makes no object of more than `OBJECT_MAX` bytes
  if fits : file.length < OBJECT_MAX then
    let read ← orFail startup.read YML_FILE_ERROR
    return ⟨1, ⟨cstr (load file garbage read), zero_not_mem_cstr _,
      (load_length file garbage read).trans_lt fits⟩, ⟨⟨elems, cells, blocks⟩, supply⟩, false⟩
  else throw YML_NOT_ENOUGH_MEMORY

theorem bind_ok {α β : Type} {x : Except Int α} {f : α → Except Int β} {b : β}
    (ends : (x >>= f) = .ok b) : ∃ a, x = .ok a ∧ f a = .ok b := by
  cases x with
  | error e => cases ends
  | ok a => exact ⟨a, rfl, ends⟩

theorem orFail_ok {α : Type*} {answer : Option α} {error : Int} {a : α}
    (ends : orFail answer error = .ok a) : answer = some a := by
  cases answer with
  | none => cases ends
  | some a =>
    cases ends
    rfl

variable {path : Option (List Byte)} {startup : Startup} {cells : Heap Elem}
  {blocks : Heap (List Byte)} {supply : Nat → Blocks} {parser : Parser}

/-- A parser is free and has not been executed, and its map is the memory as it
was given. -/
theorem initYmlParser_ok (created : initYmlParser path startup cells blocks supply = .ok parser) :
    parser.mutex = 1 ∧ parser.executed = false ∧
      ∃ name file elems garbage read, path = some name ∧ startup.file name = some file ∧
        startup.map = some elems ∧ startup.content = some garbage ∧ startup.read = some read ∧
        parser.content.bytes = cstr (load file garbage read) ∧
        parser.memory = ⟨⟨elems, cells, blocks⟩, supply⟩ := by
  obtain ⟨name, given, created⟩ := bind_ok created
  obtain ⟨_, -, created⟩ := bind_ok created
  obtain ⟨_, -, created⟩ := bind_ok created
  obtain ⟨elems, map, created⟩ := bind_ok created
  obtain ⟨file, found, created⟩ := bind_ok created
  obtain ⟨_, -, created⟩ := bind_ok created
  obtain ⟨_, -, created⟩ := bind_ok created
  obtain ⟨garbage, content, created⟩ := bind_ok created
  by_cases fits : file.length < OBJECT_MAX
  · rw [dif_pos fits] at created
    obtain ⟨read, gives, created⟩ := bind_ok created
    cases created
    exact ⟨rfl, rfl, name, file, elems, garbage, read, orFail_ok given, orFail_ok found, orFail_ok map,
      orFail_ok content, orFail_ok gives, rfl, rfl⟩
  · rw [dif_neg fits] at created
    cases created

/-! ## The chains after the constructor -/

/-- The map is well formed, and stays so: after any insertions each chain is what
they put there, in their order, and a key that was never inserted is not found. -/
def WellFormed (parser : Parser) : Prop :=
  ∀ (calls : List (List Byte × List Byte)) (fuel : Nat), (∀ call ∈ calls, 0 ∉ call.1) →
    calls.length < fuel → ∃ memory returns, insertAll fuel parser.memory calls = .ok (memory, returns) ∧
      (∀ i, readChain memory.map fuel (memory.map.elems i) =
        .ok (calls.filter fun pair => bucket pair.1 = i)) ∧
      ∀ key, key ∉ calls.map Prod.fst → get memory.map key fuel = .ok (0, [])

/-- The constructor does not establish the chains: they are well formed exactly when
the memory for the map happened to be full of null pointers. -/
theorem initYmlParser_wellFormed_iff (path : Option (List Byte)) (startup : Startup)
    (cells : Heap Elem) (blocks : Heap (List Byte)) (supply : Nat → Blocks) (parser : Parser)
    (created : initYmlParser path startup cells blocks supply = .ok parser)
    (plenty : Plenty parser.memory) :
    WellFormed parser ↔ startup.map = some fun _ => none := by
  obtain ⟨-, -, name, file, elems, garbage, read, -, -, map, -, -, -, memory⟩ := initYmlParser_ok created
  rw [map, Option.some_inj]
  constructor
  · intro wellFormed
    obtain ⟨after, returns, inserted, walks, -⟩ := wellFormed [] 1 (List.forall_mem_nil _) Nat.one_pos
    obtain ⟨rfl, -⟩ := Prod.mk.inj (Except.ok.inj inserted)
    funext i
    have walked := walks i
    rw [memory] at walked
    cases start : elems i with
    | none => rfl
    | some addr =>
      -- a walk with room for no entry does not get past the first cell
      simp only [start, readChain] at walked
      split at walked
      · cases walked
      · split at walked <;> cases walked
  · intro zeroed calls fuel noNul enough
    have empty : ∀ i, parser.memory.map.elems i = none := fun i => by rw [memory]; exact congrFun zeroed i
    obtain ⟨after, inserted, walks, finds⟩ := insertAll_empty plenty empty noNul enough
    refine ⟨after, _, inserted, walks, fun key outside => ?_⟩
    have nowhere : calls.find? (·.1 = key) = none := by
      rw [List.find?_eq_none]
      intro call member same
      exact outside (of_decide_eq_true same ▸ List.mem_map_of_mem member)
    rw [finds, nowhere]

/-- Everything works for this file, and this is what lies in the memory. -/
def Startup.granted (file : List Byte) (elems : Fin MAP_SIZE → Option Addr) : Startup where
  parser := true
  semaphore := true
  map := some elems
  file _ := some file
  measured := true
  rewound := true
  content := some []
  read := some file.length

/-- A file that fits is loaded when all calls work. -/
theorem initYmlParser_granted (name : List Byte) {file : List Byte} (noNul : 0 ∉ file)
    (fits : file.length < OBJECT_MAX) (elems : Fin MAP_SIZE → Option Addr) (cells : Heap Elem)
    (blocks : Heap (List Byte)) (supply : Nat → Blocks) :
    initYmlParser (some name) (.granted file elems) cells blocks supply =
      .ok ⟨1, ⟨file, noNul, fits⟩, ⟨⟨elems, cells, blocks⟩, supply⟩, false⟩ := by
  have whole : (⟨cstr (load file [] file.length), zero_not_mem_cstr _,
      (load_length file [] file.length).trans_lt fits⟩ : CString) = ⟨file, noNul, fits⟩ := by
    rw [CString.mk.injEq, load_whole noNul]
  rw [← whole]
  exact dif_pos fits

/-- The parser of a text, in fresh memory. -/
def freshParser (text : CString) : Parser := ⟨1, text, freshMemory, false⟩

theorem freshParser_created (name : List Byte) (text : CString) :
    initYmlParser (some name) (.granted text.bytes fun _ => none) (fun _ => none) (fun _ => none)
      freshMemory.supply = .ok (freshParser text) :=
  initYmlParser_granted name text.noNul text.fits _ _ _ _

/-- What `malloc` returns does not depend on where the chains start. -/
theorem Plenty.heads {memory : Memory} (plenty : Plenty memory) (elems : Fin MAP_SIZE → Option Addr) :
    Plenty ⟨{ memory.map with elems := elems }, memory.supply⟩ := by
  refine ⟨fun n => ?_, plenty.cells, plenty.keys, plenty.values, plenty.apart⟩
  obtain ⟨cell, key, value, garbage, next, free⟩ := plenty.found n
  exact ⟨cell, key, value, garbage, next, free.cell, free.key, free.value, free.apart⟩

theorem initYmlParser_wellFormed_zeroed : ∃ parser,
    initYmlParser (some (bytes "c.yml")) (.granted (bytes "a: 1\n") fun _ => none)
      (fun _ => none) (fun _ => none) freshMemory.supply = .ok parser ∧ WellFormed parser := by
  have created := freshParser_created (bytes "c.yml") ⟨bytes "a: 1\n", by decide +kernel, by decide +kernel⟩
  exact ⟨_, created, (initYmlParser_wellFormed_iff _ _ _ _ _ _ created plenty_freshMemory).mpr rfl⟩

/-- The first chain starts with an address that lay in the memory for the map: `get`
of a key of this chain reads there, before anything was inserted. -/
theorem garbage_is_a_chain : ∃ parser,
    initYmlParser (some (bytes "c.yml")) (.granted (bytes "a: 1\n") fun i => if i = bucket [] then some 7 else none)
      (fun _ => none) (fun _ => none) freshMemory.supply = .ok parser ∧ Plenty parser.memory ∧
      get parser.memory.map [] 1 = .error .undefined ∧ ¬ WellFormed parser := by
  have created := initYmlParser_granted (bytes "c.yml") (show 0 ∉ bytes "a: 1\n" by decide +kernel)
    (by decide +kernel) (fun i => if i = bucket [] then some 7 else none) (fun _ => none) (fun _ => none)
    freshMemory.supply
  refine ⟨_, created, ?_, by decide +kernel, fun wellFormed => ?_⟩
  · exact plenty_freshMemory.heads _
  · obtain ⟨memory, returns, inserted, -, finds⟩ :=
      wellFormed [] 1 (List.forall_mem_nil _) Nat.one_pos
    obtain ⟨rfl, -⟩ := Prod.mk.inj (Except.ok.inj inserted)
    have found := finds [] (List.not_mem_nil)
    revert found
    decide +kernel

end LocalServer.Yml
