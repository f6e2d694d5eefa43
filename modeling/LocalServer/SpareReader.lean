import LocalServer.ResponseTransfer

/-! A response pipe that somebody has open for reading and does not read. An
interrupted `listen_response` leaves it so: the end it holds takes no byte, but the
child of `send_response` finds a reader in it, and may be done before anybody
listens. -/
namespace LocalServer

/-- The same pipe, with this many readers more. -/
def Fifo.widen {α : Type*} (f : Fifo α) (spare : Nat) : Fifo α :=
  { f with readOpens := f.readOpens + spare }

/-- The same pipe, after this many readers more have closed it. -/
def Fifo.shut {α : Type*} (f : Fifo α) (spare : Nat) : Fifo α :=
  { f with readCloses := f.readCloses + spare }

namespace Fifo

variable {α : Type*} {f : Fifo α} {chunk : List α} {spare : Nat}

@[simp] theorem widen_data : (f.widen spare).data = f.data := rfl

@[simp] theorem widen_readCloses : (f.widen spare).readCloses = f.readCloses := rfl

@[simp] theorem widen_writeCloses : (f.widen spare).writeCloses = f.writeCloses := rfl

@[simp] theorem widen_joinWrite : (f.widen spare).joinWrite = f.joinWrite.widen spare := rfl

@[simp] theorem widen_drop (n : Nat) : (f.widen spare).drop n = (f.drop n).widen spare := rfl

@[simp] theorem widen_abandoned : (f.widen spare).abandoned = f.abandoned := rfl

@[simp] theorem widen_selectable (gone : Nat) : (f.widen spare).selectable gone = f.selectable gone := rfl

theorem widen_joinRead : (f.widen spare).joinRead = f.joinRead.widen spare := by
  simp [widen, joinRead, Nat.add_right_comm]

theorem leaveWrite_eq (kept : f.readCloses < f.readOpens ∨ f.data = []) :
    f.leaveWrite = { f with writeCloses := f.writeCloses + 1 } := by
  unfold leaveWrite settle
  split
  · next closed =>
    have empty : f.data = [] := kept.resolve_left closed.1.not_gt
    simp [empty]
  · rfl

theorem leaveRead_eq (empty : f.data = []) : f.leaveRead = { f with readCloses := f.readCloses + 1 } := by
  unfold leaveRead settle
  split <;> simp [empty]

theorem widen_write (reader : f.readCloses < f.readOpens) :
    (f.widen spare).write chunk = (f.write chunk).map (·.widen spare) := by
  have still : f.readCloses < f.readOpens + spare := by omega
  simp only [write, widen, reader, still, true_and]
  split <;> rfl

theorem widen_leaveWrite (kept : f.readCloses < f.readOpens ∨ f.data = []) :
    (f.widen spare).leaveWrite = f.leaveWrite.widen spare := by
  have still : (f.widen spare).readCloses < (f.widen spare).readOpens ∨ (f.widen spare).data = [] :=
    kept.imp_left fun reader => by simp only [widen]; omega
  rw [leaveWrite_eq kept, leaveWrite_eq still]
  rfl

theorem widen_leaveRead (empty : f.data = []) :
    (f.widen spare).leaveRead = f.leaveRead.widen spare := by
  rw [leaveRead_eq empty, leaveRead_eq (by simpa using empty)]
  rfl

end Fifo

namespace ResponsePipe

def Exchange.widen (x : Exchange) (spare : Nat) : Exchange := { x with fifo := x.fifo.widen spare }

variable {res : Response} {x x' : Exchange} {s : Sender} {l : Listener} {f : Fifo Byte}
  {answer : Answer} {event : Event} {spare : Nat}

/-- The child does not notice a reader more where there is one already. -/
theorem sendResponse_widen (opened : ∀ gone, s.pc = .opening gone → gone < f.readOpens)
    (reader : f.readCloses < f.readOpens ∨
      f.data = [] ∧ s.pc ≠ .header ∧ (s.pc = .body → s.res.size = s.total)) :
    sendResponse s (f.widen spare) answer =
      (sendResponse s f answer).map fun (s, f, chunk) => (s, f.widen spare, chunk) := by
  have leave : (f.widen spare).leaveWrite = f.leaveWrite.widen spare :=
    Fifo.widen_leaveWrite (reader.imp_right And.left)
  cases here : s.pc with
  | opening gone =>
    have there := opened gone here
    have still : gone < (f.widen spare).readOpens := there.trans_le (Nat.le_add_right ..)
    cases answer <;> simp [sendResponse, here, leave, Fifo.writeOpened, there, still]
  | header =>
    have reader : f.readCloses < f.readOpens := by simpa [here] using reader
    cases answer <;> simp [sendResponse, here, leave, Fifo.widen_write reader, Function.comp_def]
  | body =>
    cases answer with
    | count n =>
      simp only [sendResponse, here]
      split
      · rfl
      · split
        · next nothing some =>
          have reader : f.readCloses < f.readOpens := by
            rcases reader with reader | ⟨-, -, spent⟩
            · exact reader
            · have := spent here
              omega
          simp [Fifo.widen_write reader, Function.comp_def]
        · rfl
    | _ => simp [sendResponse, here, leave]
  | _ => cases answer <;> simp [sendResponse, here, leave]

/-- A child that has written everything does not look for readers. -/
theorem sendResponse_shut (empty : f.data = []) (spent : s.progress = SIZEOF_SIZE_T + s.res.size) :
    sendResponse s (f.shut spare) answer =
      (sendResponse s f answer).map fun (s, f, chunk) => (s, f.shut spare, chunk) := by
  have leave : (f.shut spare).leaveWrite = f.leaveWrite.shut spare := by
    rw [Fifo.leaveWrite_eq (.inr empty), Fifo.leaveWrite_eq (.inr (by exact empty))]
    rfl
  cases here : s.pc with
  | body =>
    have full : s.total = s.res.size := by simpa [Sender.progress, here] using spent
    cases answer with
    | count n =>
      by_cases nothing : n = 0
      · simp [sendResponse, here, full, nothing]
      · have stops : ¬ (0 < n ∧ n ≤ s.res.size - s.total) := by omega
        simp [sendResponse, here, nothing, stops]
    | _ => simp [sendResponse, here, leave]
  | close | exited => cases answer <;> simp [sendResponse, here, leave]
  | _ =>
    have nothing : s.progress = 0 := by simp [Sender.progress, here]
    rw [nothing, SIZEOF_SIZE_T] at spent
    omega

/-- The reader does not notice the others either. -/
theorem listenResponse_widen (closes : l.pc = .close → f.data = []) :
    listenResponse l (f.widen spare) answer =
      (listenResponse l f answer).map fun (l, f, chunk) => (l, f.widen spare, chunk) := by
  cases here : l.pc with
  | close =>
    have leave : (f.widen spare).leaveRead = f.leaveRead.widen spare :=
      Fifo.widen_leaveRead (closes here)
    cases answer <;> simp [listenResponse, here, leave]
  | readBody =>
    cases answer with
    | count n =>
      by_cases drained : n = 0 ∧ f.data = [] ∧ f.abandoned = true
      · simp [listenResponse, here, drained]
      · by_cases some : 0 < n ∧ n ≤ l.size - l.msg.length ∧ n ≤ f.data.length
        · simp [listenResponse, here, drained, some]
        · simp [listenResponse, here, drained, some]
    | _ => simp [listenResponse, here]
  | select | selectBody =>
    cases ready : f.selectable l.gone <;> cases answer <;> simp [listenResponse, here, ready]
  | readSize =>
    by_cases ready : f.data ≠ [] ∨ f.abandoned = true <;> cases answer <;>
      simp [listenResponse, here, ready]
  | _ => cases answer <;> simp [listenResponse, here, Fifo.widen_joinRead]

theorem Exchange.widen_zero (x : Exchange) : x.widen 0 = x := rfl

/-- Once the reader has opened the pipe, a step that the spare readers allow is a
step without them. -/
theorem step_widen (transfer : Transfer res x) (heard : x.listener.pc ≠ .open)
    (stepped : step (x.widen spare) event = some x') :
    ∃ y, step x event = some y ∧ x' = y.widen spare := by
  have whole : x.listener.holds = false → x.listener.progress res = SIZEOF_SIZE_T + res.size := by
    intro left
    cases here : x.listener.pc <;> simp_all [Listener.holds, Listener.progress]
  cases event with
  | sends answer =>
    have opened : ∀ gone, x.sender.pc = .opening gone → gone < x.fifo.readOpens := by
      intro gone here
      have since := (transfer.waiting gone here).1
      have readEnd := transfer.readEnd
      have behind := transfer.behind
      by_cases holds : x.listener.holds = true
      · rw [if_pos holds] at readEnd
        omega
      · rw [whole (by simpa using holds)] at behind
        simp [Sender.progress, here, SIZEOF_SIZE_T] at behind
    have reader : x.fifo.readCloses < x.fifo.readOpens ∨ x.fifo.data = [] ∧ x.sender.pc ≠ .header ∧
        (x.sender.pc = .body → x.sender.res.size = x.sender.total) := by
      by_cases holds : x.listener.holds = true
      · have readEnd := transfer.readEnd
        rw [if_pos holds] at readEnd
        exact .inl (by omega)
      · have all := whole (by simpa using holds)
        have behind := transfer.behind
        have sent := transfer.sender.progress_le
        rw [all] at behind
        refine .inr ⟨transfer.emptied all, fun here => ?_, fun here => ?_⟩
        · simp [Sender.progress, here, SIZEOF_SIZE_T] at behind
        · simp only [Sender.progress, here] at behind sent
          rw [transfer.sender.1]
          omega
    simp only [step, Exchange.widen, sendResponse_widen opened reader, Option.map_map,
      Option.map_eq_some_iff] at stepped ⊢
    obtain ⟨⟨s', f', chunk⟩, moved, rfl⟩ := stepped
    exact ⟨_, ⟨_, moved, rfl⟩, rfl⟩
  | listens answer =>
    have closes : x.listener.pc = .close → x.fifo.data = [] := fun here =>
      transfer.emptied (by simp [Listener.progress, here])
    simp only [step, Exchange.widen, listenResponse_widen closes, Option.map_map,
      Option.map_eq_some_iff] at stepped ⊢
    obtain ⟨⟨l', f', chunk⟩, moved, rfl⟩ := stepped
    exact ⟨_, ⟨_, moved, rfl⟩, rfl⟩

/-- The exchange as it would be if a spare read end were that of the reader. -/
def Exchange.lend (x : Exchange) (gone : Nat) : Exchange :=
  { x with listener := { x.listener with pc := .select, gone := gone } }

/-- A response is on its way through a pipe that has spare readers. -/
inductive Delivery (res : Response) (x : Exchange) : Prop
  /-- They make no difference. -/
  | own (y : Exchange) (spare : Nat) (same : x = y.widen spare) (transfer : Transfer res y)
    (heard : spare = 0 ∨ y.listener.pc ≠ .open)
  /-- The child makes do with one of them as long as nobody listens. -/
  | lent (gone : Nat) (unheard : x.listener.pc = .open) (transfer : Transfer res (x.lend gone))

/-- The reader opens the pipe once. -/
theorem opened_step (heard : x.listener.pc ≠ .open) (stepped : step x event = some x') :
    x'.listener.pc ≠ .open := by
  cases event with
  | sends answer =>
    obtain ⟨⟨s', f', chunk⟩, moved, rfl⟩ := Option.map_eq_some_iff.mp stepped
    exact heard
  | listens answer =>
    obtain ⟨⟨l', f', chunk⟩, moved, rfl⟩ := Option.map_eq_some_iff.mp stepped
    have loop : ∀ l : Listener, l.loop.pc ≠ .open := fun l => by
      unfold Listener.loop
      split <;> simp
    cases here : x.listener.pc with
    | «open» => exact absurd here heard
    | readBody =>
      cases answer <;> simp [listenResponse, here] at moved
      · obtain ⟨rfl, -⟩ := moved
        simp [Listener.return]
      · split_ifs at moved <;> simp only [Option.some.injEq, Prod.mk.injEq] at moved <;>
          · obtain ⟨rfl, -⟩ := moved
            exact loop _
    | malloc =>
      cases answer <;> simp [listenResponse, here] at moved <;> obtain ⟨rfl, -⟩ := moved
      · exact loop _
      · simp [Listener.return]
    | select | readSize | selectBody =>
      cases answer <;> simp [listenResponse, here] at moved
      · obtain ⟨-, rfl, -⟩ := moved
        simp
      all_goals
        obtain ⟨rfl, -⟩ := moved
        simp [Listener.return]
    | mallocBuffer | close =>
      cases answer <;> simp [listenResponse, here] at moved <;> obtain ⟨rfl, -⟩ := moved <;>
        simp [Listener.return]
    | returned r => cases answer <;> simp [listenResponse, here] at moved

theorem delivery_step (delivery : Delivery res x) (smooth : event.smooth = true)
    (stepped : step x event = some x') : Delivery res x' := by
  cases delivery with
  | own y spare same transfer heard =>
    subst same
    rcases heard with rfl | heard
    · rw [Exchange.widen_zero] at stepped
      exact .own x' 0 rfl (transfer_step transfer smooth stepped) (.inl rfl)
    · obtain ⟨y', moved, rfl⟩ := step_widen transfer heard stepped
      refine .own y' spare rfl (transfer_step transfer smooth moved) (.inr ?_)
      exact opened_step heard moved
  | lent gone unheard transfer =>
    cases event with
    | sends answer =>
      obtain ⟨⟨s', f', chunk⟩, moved, rfl⟩ := Option.map_eq_some_iff.mp stepped
      exact .lent gone unheard (transfer_step transfer smooth (by simp [step, Exchange.lend, moved]))
    | listens answer =>
      obtain ⟨⟨l', f', chunk⟩, moved, rfl⟩ := Option.map_eq_some_iff.mp stepped
      cases answer <;> simp [listenResponse, unheard, Event.smooth] at moved smooth
      obtain ⟨rfl, rfl, rfl⟩ := moved
      -- the reader holds an end of its own from now on, and the other one is spare
      refine .own { x.lend x.fifo.writeCloses with consumed := x.consumed ++ [] } 1 rfl ?_
        (.inr (by simp [Exchange.lend]))
      have writeEnd := transfer.writeEnd
      exact { transfer with
        consumed := by rw [List.append_nil]; exact transfer.consumed
        data := by rw [List.append_nil]; exact transfer.data
        unheard := fun early _ => by
          cases there : x.sender.pc <;> simp_all [Sender.early, Sender.holds, Exchange.lend] }

/-- What the reader gets is the response that was sent. -/
theorem Delivery.returned (delivery : Delivery res x) {r : Int} (here : x.listener.pc = .returned r) :
    x.listener.buffer = some (received res) := by
  cases delivery with
  | own y spare same transfer =>
    subst same
    have sound := transfer.listener
    rw [Listener.Sound, show y.listener.pc = .returned r from here] at sound
    exact sound.2
  | lent gone unheard => simp [unheard] at here

end ResponsePipe

end LocalServer
