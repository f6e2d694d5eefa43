import LocalServer.Lib.Ring
import LocalServer.ShmQueueTokens

/-! Safety of the connection queue under every interleaving. The buffer between
`tail` and `head` is always the part of the stored requests that has not been
handed over yet, so the server sees them once each and in storing order. -/
namespace LocalServer.ShmQueue
open Runs

/-- Critical sections move the indices one after the other: these are the moves
a call inside one still has to make. -/
def Call.lateHead : Call → Nat
  | .send _ .moveHead => 1
  | _ => 0

def Call.lateLength : Call → Nat
  | .send _ .moveHead | .send _ .grow => 1
  | _ => 0

def Call.lateTail : Call → Nat
  | .fetch (.moveTail _) => 1
  | _ => 0

def Call.lateShrink : Call → Nat
  | .fetch (.moveTail _) | .fetch (.shrink _) => 1
  | _ => 0

/-- The call divided by zero slots or left the buffer. -/
def Call.broken : Call → Nat
  | .send _ .crashed | .fetch .crashed => 1
  | _ => 0

theorem Call.lateHead_le_inside (call : Call) : call.lateHead ≤ call.inside := by
  unfold Call.lateHead
  split <;> simp [Call.inside]

theorem Call.lateLength_le_inside (call : Call) : call.lateLength ≤ call.inside := by
  unfold Call.lateLength
  split <;> simp [Call.inside]

theorem Call.lateTail_le_inside (call : Call) : call.lateTail ≤ call.inside := by
  unfold Call.lateTail
  split <;> simp [Call.inside]

theorem Call.lateShrink_le_inside (call : Call) : call.lateShrink ≤ call.inside := by
  unfold Call.lateShrink
  split <;> simp [Call.inside]

variable {maxSlot i : Nat} {s s' : System} {queue : ServerQueue} {sub : Submission} {call : Call}

/-- What the queue holds, against the requests stored and handed over so far. -/
structure Content (maxSlot : Nat) (s : System) : Prop where
  size : s.queue.buffer.length = maxSlot
  length : s.queue.length + s.applied.length + tally Call.lateLength s.calls =
    s.stored.length + tally Call.lateShrink s.calls
  head : s.queue.head = (s.stored.length - tally Call.lateHead s.calls) % maxSlot
  tail : s.queue.tail = (s.applied.length - tally Call.lateTail s.calls) % maxSlot
  order : s.applied = (s.stored.map Submission.request).take s.applied.length
  live : Ring.Holds s.queue.buffer s.applied.length
    ((s.stored.map Submission.request).drop s.applied.length)
  alive : tally Call.broken s.calls = 0

theorem content_start (bound : maxSlot ≤ INT_MAX) (built : initServerQueue maxSlot = some queue) :
    Content maxSlot (start queue) := by
  rw [initServerQueue_eq bound] at built
  cases built
  constructor <;> simp [start, Ring.holds_nil]

/-- A call inside a critical section is the only one. -/
theorem Tokens.alone (tokens : Tokens maxSlot s) (found : s.calls[i]? = some call)
    (inside : call.inside = 1) : tally Call.inside s.calls = call.inside := by
  have here := le_tally Call.inside found
  have := tokens.mutex
  omega

/-- The moves that are late are those of the call inside. -/
theorem Tokens.late (tokens : Tokens maxSlot s) (found : s.calls[i]? = some call)
    (inside : call.inside = 1) :
    tally Call.lateHead s.calls = call.lateHead ∧ tally Call.lateLength s.calls = call.lateLength ∧
      tally Call.lateTail s.calls = call.lateTail ∧
      tally Call.lateShrink s.calls = call.lateShrink :=
  have alone := tokens.alone found inside
  ⟨tally_alone Call.lateHead_le_inside found alone, tally_alone Call.lateLength_le_inside found alone,
    tally_alone Call.lateTail_le_inside found alone, tally_alone Call.lateShrink_le_inside found alone⟩

/-- Nothing is handed over before it is stored, and a sender with a token of
`empty` finds a free slot. -/
theorem Tokens.window (tokens : Tokens maxSlot s) :
    s.applied.length + tally Call.claimsItem s.calls + tally Call.owesFull s.calls ≤ s.stored.length ∧
      s.stored.length + tally Call.claimsSlot s.calls + tally Call.owesEmpty s.calls ≤
        maxSlot + s.applied.length := by
  have := tokens.empty
  have := tokens.full
  omega

/-- A step that touches neither the indices nor the buffer, taken by a call that
has no move left to make, leaves the content as it was. -/
theorem Content.quiet (content : Content maxSlot s) {calls : List Call}
    (lateHead : tally Call.lateHead calls = tally Call.lateHead s.calls)
    (lateLength : tally Call.lateLength calls = tally Call.lateLength s.calls)
    (lateTail : tally Call.lateTail calls = tally Call.lateTail s.calls)
    (lateShrink : tally Call.lateShrink calls = tally Call.lateShrink s.calls)
    (broken : tally Call.broken calls = tally Call.broken s.calls)
    (same : queue.buffer = s.queue.buffer ∧ queue.length = s.queue.length ∧
      queue.head = s.queue.head ∧ queue.tail = s.queue.tail) :
    Content maxSlot { s with queue := queue, calls := calls } := by
  obtain ⟨buffer, length, head, tail⟩ := same
  exact {
    size := by simpa only [buffer] using content.size
    length := by simpa only [length, lateLength, lateShrink] using content.length
    head := by simpa only [head, lateHead] using content.head
    tail := by simpa only [tail, lateTail] using content.tail
    order := content.order
    live := by simpa only [buffer] using content.live
    alive := by simpa only [broken] using content.alive }

/-- The slot at `head` is free when a sender is about to store. -/
theorem Content.store (content : Content maxSlot s) (tokens : Tokens maxSlot s)
    (found : s.calls[i]? = some (.send sub .store)) :
    s.queue.head = s.stored.length % maxSlot ∧ s.stored.length < maxSlot + s.applied.length := by
  obtain ⟨lateHead, -⟩ := tokens.late found rfl
  have claimed := le_tally Call.claimsSlot found
  simp only [Call.lateHead, Call.claimsSlot] at lateHead claimed
  have := tokens.window
  exact ⟨by simpa [lateHead] using content.head, by omega⟩

/-- A sender never leaves the buffer and never divides by zero. -/
theorem Content.send_alive (content : Content maxSlot s) (tokens : Tokens maxSlot s)
    (found : s.calls[i]? = some (.send sub pc)) (move : SendMove sub s.queue pc queue pc') :
    pc' ≠ .crashed := by
  have window := tokens.window
  cases move with
  | storeOutside outside =>
    obtain ⟨head, room⟩ := content.store tokens found
    have slots : 0 < maxSlot := by omega
    rw [content.size, head] at outside
    exact absurd (Nat.mod_lt _ slots) outside
  | divideByZero zero =>
    have owed := le_tally Call.owesFull found
    simp only [Call.owesFull] at owed
    rw [tokens.slots] at zero
    omega
  | _ => simp

/-- Nor does a fetcher: what it has taken a token for lies in a slot. -/
theorem Content.fetch_alive (content : Content maxSlot s) (tokens : Tokens maxSlot s)
    (found : s.calls[i]? = some (.fetch pc)) (move : FetchMove s.queue pc queue pc') :
    pc' ≠ .crashed := by
  have window := tokens.window
  cases move with
  | applyOutside outside =>
    obtain ⟨-, -, lateTail, -⟩ := tokens.late found rfl
    have claimed := le_tally Call.claimsItem found
    simp only [Call.lateTail, Call.claimsItem] at lateTail claimed
    have slots : 0 < maxSlot := by omega
    rw [content.size, content.tail] at outside
    exact absurd (Nat.mod_lt _ slots) outside
  | divideByZero zero =>
    have owed := le_tally Call.owesEmpty found
    simp only [Call.owesEmpty] at owed
    rw [tokens.slots] at zero
    omega
  | _ => simp

/-- With at most `INT_MAX` slots an index never reaches the end of `size_t`. -/
theorem advance_index {k n : Nat} (positive : 0 < n) (bound : n ≤ INT_MAX) :
    sizeSucc (k % n) % n = (k + 1) % n := by
  have inRange := Nat.mod_lt k positive
  have noWrap : sizeSucc (k % n) = k % n + 1 :=
    Nat.mod_eq_of_lt (by simp only [INT_MAX] at bound; omega)
  rw [noWrap, Nat.mod_add_mod]

/-- Storing fills the free slot behind the live requests. -/
theorem Content.live_store (content : Content maxSlot s) (tokens : Tokens maxSlot s)
    (found : s.calls[i]? = some (.send sub .store)) :
    Ring.Holds (s.queue.buffer.set s.queue.head sub.request) s.applied.length
      (((s.stored ++ [sub]).map Submission.request).drop s.applied.length) := by
  obtain ⟨head, room⟩ := content.store tokens found
  have window := tokens.window
  have behind : s.applied.length + ((s.stored.map Submission.request).drop s.applied.length).length
      = s.stored.length := by
    rw [List.length_drop, List.length_map]
    omega
  have pushed := Ring.holds_push sub.request content.live (by rw [content.size]; omega)
  rw [behind, content.size, ← head] at pushed
  rwa [List.map_append, List.drop_append_of_le_length (by rw [List.length_map]; omega)]

/-- The content survives every step of a sender. -/
theorem Content.send (content : Content maxSlot s) (tokens : Tokens maxSlot s)
    (bound : maxSlot ≤ INT_MAX)
    (found : s.calls[i]? = some (.send sub pc)) (move : SendMove sub s.queue pc queue pc') :
    Content maxSlot { s with
      queue := queue
      calls := s.calls.set i (.send sub pc')
      stored := if pc = .store then s.stored ++ [sub] else s.stored } := by
  have notCrashed := content.send_alive tokens found move
  have window := tokens.window
  have lateHead := tally_set Call.lateHead (.send sub pc') found
  have lateLength := tally_set Call.lateLength (.send sub pc') found
  have lateTail := tally_set Call.lateTail (.send sub pc') found
  have lateShrink := tally_set Call.lateShrink (.send sub pc') found
  have broken := tally_set Call.broken (.send sub pc') found
  cases move with
  | storeOutside | divideByZero => exact absurd rfl notCrashed
  | store inside =>
    obtain ⟨head, room⟩ := content.store tokens found
    simp only [Call.lateHead, Call.lateLength, Call.lateTail, Call.lateShrink, Call.broken,
      Nat.add_zero] at lateHead lateLength lateTail lateShrink broken
    exact {
      size := by simpa using content.size
      length := by
        have := content.length
        simp only [↓reduceIte, List.length_append, List.length_singleton]
        omega
      head := by
        obtain ⟨none, -⟩ := tokens.late found rfl
        simp only [Call.lateHead] at none
        simpa [lateHead, none] using head
      tail := by simpa only [lateTail] using content.tail
      order := by
        have := content.order
        simpa [List.take_append_of_le_length, show s.applied.length ≤ s.stored.length by omega]
      live := content.live_store tokens found
      alive := by simpa only [broken] using content.alive }
  | moveHead slots =>
    obtain ⟨before, -⟩ := tokens.late found rfl
    have owed := le_tally Call.owesFull found
    simp only [Call.lateHead, Call.lateLength, Call.lateTail, Call.lateShrink, Call.broken,
      Call.owesFull, Nat.add_zero] at lateHead lateLength lateTail lateShrink broken before owed
    have after : tally Call.lateHead (s.calls.set i (.send sub .grow)) = 0 := by omega
    have positive : 0 < maxSlot := Nat.pos_of_ne_zero (tokens.slots ▸ slots)
    have advanced : sizeSucc s.queue.head % s.queue.nbSlots = s.stored.length % maxSlot := by
      rw [content.head, before, tokens.slots, advance_index positive bound,
        show s.stored.length - 1 + 1 = s.stored.length by omega]
    exact {
      size := content.size
      length := by have := content.length; simp only [reduceCtorEq, ↓reduceIte]; omega
      head := by simpa [after] using advanced
      tail := by simpa only [lateTail] using content.tail
      order := content.order
      live := content.live
      alive := by simpa only [broken] using content.alive }
  | grow =>
    obtain ⟨-, before, -, settled⟩ := tokens.late found rfl
    simp only [Call.lateHead, Call.lateLength, Call.lateTail, Call.lateShrink, Call.broken,
      Nat.add_zero] at lateHead lateLength lateTail lateShrink broken before settled
    have short := content.length
    have grown : sizeSucc s.queue.length = s.queue.length + 1 :=
      Nat.mod_eq_of_lt (by simp only [INT_MAX] at bound; omega)
    exact {
      size := content.size
      length := by simp only [grown, reduceCtorEq, ↓reduceIte]; omega
      head := by simpa only [lateHead, reduceCtorEq, ↓reduceIte] using content.head
      tail := by simpa only [lateTail] using content.tail
      order := content.order
      live := content.live
      alive := by simpa only [broken] using content.alive }
  | refuse r first =>
    rcases first with rfl | rfl <;>
      exact content.quiet lateHead lateLength lateTail lateShrink broken ⟨rfl, rfl, rfl, rfl⟩
  | _ => exact content.quiet lateHead lateLength lateTail lateShrink broken ⟨rfl, rfl, rfl, rfl⟩

/-- The slot at `tail` holds the oldest live request when a fetcher is about to
hand it over, and the others stay live. -/
theorem Content.apply (content : Content maxSlot s) (tokens : Tokens maxSlot s)
    (found : s.calls[i]? = some (.fetch .apply)) :
    ∃ request, s.queue.buffer[s.queue.tail]? = some request ∧
      s.applied ++ [request] = (s.stored.map Submission.request).take (s.applied.length + 1) ∧
      Ring.Holds s.queue.buffer (s.applied.length + 1)
        ((s.stored.map Submission.request).drop (s.applied.length + 1)) := by
  obtain ⟨-, -, lateTail, -⟩ := tokens.late found rfl
  have claimed := le_tally Call.claimsItem found
  simp only [Call.lateTail, Call.claimsItem] at lateTail claimed
  have window := tokens.window
  have present : s.applied.length < (s.stored.map Submission.request).length := by
    rw [List.length_map]
    omega
  have live := content.live
  rw [List.drop_eq_getElem_cons present] at live
  refine ⟨(s.stored.map Submission.request)[s.applied.length], ?_, ?_, Ring.holds_tail live⟩
  · rw [content.tail, lateTail, Nat.sub_zero, ← content.size]
    exact Ring.holds_head live
  · rw [List.take_add_one, List.getElem?_eq_getElem present, ← content.order]
    rfl

/-- The content survives every step of a fetcher. -/
theorem Content.fetch (content : Content maxSlot s) (tokens : Tokens maxSlot s)
    (bound : maxSlot ≤ INT_MAX)
    (found : s.calls[i]? = some (.fetch pc)) (move : FetchMove s.queue pc queue pc') :
    Content maxSlot { s with
      queue := queue
      calls := s.calls.set i (.fetch pc')
      applied := if pc = .apply then s.applied ++ (s.queue.buffer[s.queue.tail]?).toList
        else s.applied } := by
  have notCrashed := content.fetch_alive tokens found move
  have window := tokens.window
  have lateHead := tally_set Call.lateHead (.fetch pc') found
  have lateLength := tally_set Call.lateLength (.fetch pc') found
  have lateTail := tally_set Call.lateTail (.fetch pc') found
  have lateShrink := tally_set Call.lateShrink (.fetch pc') found
  have broken := tally_set Call.broken (.fetch pc') found
  cases move with
  | applyOutside | divideByZero => exact absurd rfl notCrashed
  | apply r inside =>
    obtain ⟨request, lookup, order, live⟩ := content.apply tokens found
    obtain ⟨-, -, before, -⟩ := tokens.late found rfl
    simp only [Call.lateHead, Call.lateLength, Call.lateTail, Call.lateShrink, Call.broken,
      Nat.add_zero] at lateHead lateLength lateTail lateShrink broken before
    have counted : (s.applied ++ [request]).length = s.applied.length + 1 := by simp
    simp only [↓reduceIte, lookup, Option.toList_some]
    exact {
      size := content.size
      length := by have := content.length; simp only [counted]; omega
      head := by simpa only [lateHead] using content.head
      tail := by simpa [lateTail, before] using content.tail
      order := by simpa only [counted] using order
      live := by simpa only [counted] using live
      alive := by simpa only [broken] using content.alive }
  | @moveTail r slots =>
    obtain ⟨-, -, before, -⟩ := tokens.late found rfl
    have owed := le_tally Call.owesEmpty found
    have handed := tokens.handed
    simp only [Call.lateHead, Call.lateLength, Call.lateTail, Call.lateShrink, Call.broken,
      Call.owesEmpty, Nat.add_zero] at lateHead lateLength lateTail lateShrink broken before owed
    have after : tally Call.lateTail (s.calls.set i (.fetch (.shrink r))) = 0 := by omega
    have positive : 0 < maxSlot := Nat.pos_of_ne_zero (tokens.slots ▸ slots)
    have advanced : sizeSucc s.queue.tail % s.queue.nbSlots = s.applied.length % maxSlot := by
      rw [content.tail, before, tokens.slots, advance_index positive bound,
        show s.applied.length - 1 + 1 = s.applied.length by omega]
    exact {
      size := content.size
      length := by have := content.length; simp only [reduceCtorEq, ↓reduceIte]; omega
      head := by simpa only [lateHead] using content.head
      tail := by simpa [after] using advanced
      order := content.order
      live := content.live
      alive := by simpa only [broken] using content.alive }
  | shrink =>
    obtain ⟨-, settled, -, before⟩ := tokens.late found rfl
    simp only [Call.lateHead, Call.lateLength, Call.lateTail, Call.lateShrink, Call.broken,
      Nat.add_zero] at lateHead lateLength lateTail lateShrink broken before settled
    have long := content.length
    obtain ⟨length, nonempty⟩ : ∃ length, s.queue.length = length + 1 :=
      Nat.exists_eq_succ_of_ne_zero (by omega)
    exact {
      size := content.size
      length := by simp only [nonempty, sizePred, reduceCtorEq, ↓reduceIte]; omega
      head := by simpa only [lateHead] using content.head
      tail := by simpa only [lateTail, reduceCtorEq, ↓reduceIte] using content.tail
      order := content.order
      live := content.live
      alive := by simpa only [broken] using content.alive }
  | _ => exact content.quiet lateHead lateLength lateTail lateShrink broken ⟨rfl, rfl, rfl, rfl⟩

/-- Books and content together are an invariant of the system. -/
theorem step_invariant (bound : maxSlot ≤ INT_MAX) (before : System) (event : Event)
    (after : System) (held : Tokens maxSlot before ∧ Content maxSlot before)
    (stepped : step before event = some after) :
    Tokens maxSlot after ∧ Content maxSlot after := by
  obtain ⟨tokens, content⟩ := held
  rcases step_cases stepped with ⟨sub, -, rfl⟩ | ⟨-, rfl⟩ |
    ⟨i, outcome, sub, pc, queue, pc', -, found, moved, rfl⟩ |
    ⟨i, outcome, pc, queue, pc', -, found, moved, rfl⟩
  · exact ⟨tokens.call _ (.inl ⟨sub, rfl⟩),
      content.quiet (by simp [Call.lateHead]) (by simp [Call.lateLength]) (by simp [Call.lateTail])
        (by simp [Call.lateShrink]) (by simp [Call.broken]) ⟨rfl, rfl, rfl, rfl⟩⟩
  · exact ⟨tokens.call _ (.inr rfl),
      content.quiet (by simp [Call.lateHead]) (by simp [Call.lateLength]) (by simp [Call.lateTail])
        (by simp [Call.lateShrink]) (by simp [Call.broken]) ⟨rfl, rfl, rfl, rfl⟩⟩
  · have move := sendShmRequest_moves moved
    exact ⟨tokens.send bound found move (content.send_alive tokens found move),
      content.send tokens bound found move⟩
  · have move := fetchShmRequest_moves moved
    exact ⟨tokens.fetch bound found move (content.fetch_alive tokens found move),
      content.fetch tokens bound found move⟩

theorem run_keeps_invariant (bound : maxSlot ≤ INT_MAX)
    (built : initServerQueue maxSlot = some queue) {events : List Event}
    (ran : run step (start queue) events = some s) : Tokens maxSlot s ∧ Content maxSlot s :=
  run_invariant (step_invariant bound) ⟨tokens_start bound built, content_start bound built⟩ ran

/-- Outside the critical sections the indices are those of the logical queue. -/
theorem Content.settled (content : Content maxSlot s)
    (outside : ∀ call ∈ s.calls, call.inside = 0) :
    s.queue.length + s.applied.length = s.stored.length ∧
      s.queue.head = s.stored.length % maxSlot ∧ s.queue.tail = s.applied.length % maxSlot := by
  have none {late : Call → Nat} (below : ∀ call, late call ≤ call.inside) :
      tally late s.calls = 0 :=
    tally_eq_zero fun call member => Nat.le_zero.mp (outside call member ▸ below call)
  refine ⟨?_, ?_, ?_⟩
  · simpa [none Call.lateLength_le_inside, none Call.lateShrink_le_inside] using content.length
  · simpa [none Call.lateHead_le_inside] using content.head
  · simpa [none Call.lateTail_le_inside] using content.tail

/-- The length stays within the slots even while a critical section moves it. -/
theorem Content.length_le (content : Content maxSlot s) (tokens : Tokens maxSlot s) :
    s.queue.length ≤ maxSlot := by
  have := content.length
  have := tokens.window
  have : tally Call.lateShrink s.calls ≤ tally Call.owesEmpty s.calls :=
    tally_le_tally s.calls fun call => by
      unfold Call.lateShrink
      split <;> simp [Call.owesEmpty]
  omega

/-- A record carries what was submitted, the names cut to their first 255 bytes. -/
structure Submission.Carried (sub : Submission) (request : ShmRequest) : Prop where
  pid : request.pid = sub.pid
  uid : request.uid = sub.uid
  requestPipe : request.requestPipe.string = sub.requestPipeName.bytes.take 255
  responsePipe : request.responsePipe.string = sub.responsePipeName.bytes.take 255

theorem Submission.carried (sub : Submission) : sub.Carried sub.request where
  pid := rfl
  uid := rfl
  requestPipe := by
    rw [← cstr_eq_self sub.requestPipeName.noNul]
    exact CharArray.string_strncpy_empty _ (Nat.le_refl _)
  responsePipe := by
    rw [← cstr_eq_self sub.responsePipeName.noNul]
    exact CharArray.string_strncpy_empty _ (Nat.le_refl _)

/-- The `k`-th request handed over was built for the `k`-th submission stored. -/
theorem Content.applied_get (content : Content maxSlot s) {k : Nat} {request : ShmRequest}
    (handed : s.applied[k]? = some request) :
    ∃ sub, s.stored[k]? = some sub ∧ sub.request = request := by
  rw [content.order] at handed
  have position := (List.getElem?_eq_some_iff.mp handed).1
  rw [List.length_take] at position
  rw [List.getElem?_take_of_lt (by omega), List.getElem?_map] at handed
  exact Option.map_eq_some_iff.mp handed

/-- A stored request that was not handed over is still in the slot of its number. -/
theorem Content.waiting_get (content : Content maxSlot s) {k : Nat}
    (later : s.applied.length ≤ k) (stored : s.stored[k]? = some sub) :
    s.queue.buffer[k % maxSlot]? = some sub.request := by
  have waiting := content.live (k - s.applied.length) sub.request (by
    rw [List.getElem?_drop, List.getElem?_map, Nat.add_sub_cancel' later, stored]
    rfl)
  rwa [Nat.add_sub_cancel' later, content.size] at waiting

/-- **The connection queue is safe.** Whatever the interleaving and whichever waits
fail, the length stays within the slots, the indices agree outside the critical
sections, no remainder by zero is evaluated, and the `k`-th request handed to
`apply` is the `k`-th one stored; the stored requests that have not been handed
over are still in their slots. -/
theorem queue_is_safe (bound : maxSlot ≤ INT_MAX)
    (built : initServerQueue maxSlot = some queue) {events : List Event}
    (ran : run step (start queue) events = some s) :
    s.queue.nbSlots = maxSlot ∧ s.queue.length ≤ s.queue.nbSlots ∧
    ((∀ call ∈ s.calls, call.inside = 0) → 0 < s.queue.nbSlots →
      s.queue.head = (s.queue.tail + s.queue.length) % s.queue.nbSlots) ∧
    (∀ call ∈ s.calls, call.broken = 0) ∧
    (∀ (k : Nat) request, s.applied[k]? = some request →
      ∃ sub : Submission, s.stored[k]? = some sub ∧ sub.Carried request) ∧
    (∀ (k : Nat) (sub : Submission), s.applied.length ≤ k → s.stored[k]? = some sub →
      s.queue.buffer[k % s.queue.nbSlots]? = some sub.request) := by
  obtain ⟨tokens, content⟩ := run_keeps_invariant bound built ran
  rw [tokens.slots]
  refine ⟨rfl, content.length_le tokens, ?_, ?_, ?_, ?_⟩
  · intro outside _
    obtain ⟨length, head, tail⟩ := content.settled outside
    rw [head, tail, Nat.mod_add_mod, Nat.add_comm, length]
  · intro call member
    obtain ⟨i, found⟩ := List.mem_iff_getElem?.mp member
    have := le_tally Call.broken found
    have := content.alive
    omega
  · intro k request handed
    obtain ⟨sub, stored, rfl⟩ := content.applied_get handed
    exact ⟨sub, stored, sub.carried⟩
  · intro k sub later stored
    exact content.waiting_get later stored

def clientPipes (pid : Int) : Submission :=
  ⟨⟨bytes "./tmp/pipe_requete_1", by decide, by decide⟩,
    ⟨bytes "./tmp/pipe_reponse_1", by decide, by decide⟩, pid, 1000⟩

/-- Two clients and one fetcher take turns on a queue of one slot. -/
def oneSlotEvents : List Event :=
  [.send (clientPipes 7), .send (clientPipes 8), .fetch] ++ List.replicate 8 (.turn 0 .ok) ++
    [.turn 1 .ok, .turn 2 .ok, .turn 2 .ok, .turn 2 (.value 1)]

theorem queue_is_safe_one_slot : ∃ queue s, initServerQueue 1 = some queue ∧
    run step (start queue) oneSlotEvents = some s ∧
    s.queue.length ≤ s.queue.nbSlots ∧ ∀ call ∈ s.calls, call.broken = 0 :=
  have safe := @queue_is_safe 1 _ _ (by decide) rfl oneSlotEvents rfl
  ⟨_, _, rfl, rfl, safe.2.1, safe.2.2.2.1⟩

end LocalServer.ShmQueue
