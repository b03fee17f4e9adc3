import Msh.Library.TransitionSystem
import Msh.Bolt.Yield

namespace Msh

open Function X86 ByteMemory TransitionSystem

/-!
# Coroutines on one hardware thread

A primary and its scavengers take turns on one hardware thread, each with a
stack of its own.  A turn ends with a yield, or in the scheduler, which jumps
to the place that a yield context names.  Whatever the others do in their
turns, a coroutine that gets its turn back finds its registers and its stack
as it left them.
-/

open YieldPoint

/-- What a hardware thread and its coroutines have been given. -/
structure Layout where
  gsBase : BitVec 64
  stackBottom : Nat → Nat
  stackTop : Nat → Nat
  /-- The instructions that restore registers at an address, if there are. -/
  restores : BitVec 64 → List Instr
  stacksApart :
    ∀ pos other, pos ≤ maxCrtPerThread → other ≤ maxCrtPerThread →
      pos ≠ other →
        stackTop pos ≤ stackBottom other ∨ stackTop other ≤ stackBottom pos
  contexts :
    gsBase.toNat + sizeofYieldCtx * (maxCrtPerThread + 1) ≤ 2 ^ 64
  contextsApart :
    ∀ pos, pos ≤ maxCrtPerThread →
      gsBase.toNat + sizeofYieldCtx * (maxCrtPerThread + 1) ≤
          stackBottom pos ∨
        stackTop pos ≤ gsBase.toNat

/-- What is hosted at a position besides the coroutine that runs. -/
inductive Place where
  | empty
  /-- A scavenger that has not run yet -/
  | fresh (sp ip : BitVec 64)
  /-- A coroutine that has yielded, and the state that it yielded in -/
  | suspended (point : YieldPoint) (before : State)

/-- The hardware thread, and what has become of its coroutines. -/
structure Switching where
  state : State
  running : Nat
  place : Nat → Place

namespace Layout

variable (layout : Layout)

/-- The address of `ycs[pos]`. -/
def ycAddress (pos : Nat) : Nat :=
  layout.gsBase.toNat + sizeofYieldCtx * pos

/-- The stack of a position and the place in its yield context are the same. -/
structure Kept (pos : Nat) (before after : Memory) : Prop where
  stack :
    AgreeOn (layout.stackBottom pos) (layout.stackTop pos) after before
  context :
    AgreeOn (layout.ycAddress pos) (layout.ycAddress pos + 16) after before

/-- A jump to the place that `ycs[pos]` names. -/
structure JumpedTo (pos : Nat) (state : State) : Prop where
  sp :
    state.gpr .rsp =
      load 8 state.memory (layout.ycAddress pos + offsetToSp.toNat)
  ip :
    state.rip =
      load 8 state.memory (layout.ycAddress pos + offsetToIp.toNat)

/-- The coroutine that control has come to restores its registers. -/
def arrive (state : State) : State :=
  state.run (layout.restores state.rip)

end Layout

/-- What the thread does next. -/
inductive SwitchAction where
  /-- The running coroutine executes code that is not part of a yield. -/
  | work
  /-- The runtime, called by the running coroutine, hosts a new scavenger. -/
  | host (pos : Nat) (sp ip : BitVec 64)
  | yield (point : YieldPoint)
  /-- The running coroutine has come to its end, and the scheduler jumps. -/
  | schedule (pos : Nat)

/-- Does the step give control to a coroutine? -/
def SwitchAction.switches : SwitchAction → Bool
  | .yield _ => true
  | .schedule _ => true
  | _ => false

/-- The coroutines just before the jump of a yield or of the scheduler. -/
def Switching.placesAtJump
    (thread : Switching) : SwitchAction → Nat → Place
  | .yield point =>
      update thread.place thread.running (.suspended point thread.state)
  | .schedule _ => update thread.place thread.running .empty
  | _ => thread.place

/--
One step of the thread.  A coroutine writes neither to the stack of another
one nor to where another one is; its links may be written at any time.
-/
inductive SwitchStep (layout : Layout) :
    Switching → SwitchAction → Switching → Prop where
  | work {thread : Switching} {after : State} :
      after.gsBase = layout.gsBase →
      (∀ pos, pos ≤ maxCrtPerThread → pos ≠ thread.running →
        layout.Kept pos thread.state.memory after.memory) →
      SwitchStep layout thread .work { thread with state := after }
  | host {thread : Switching} {after : State} {pos : Nat}
      {sp ip : BitVec 64} :
      after.gsBase = layout.gsBase →
      pos ≠ thread.running →
      thread.place pos = .empty →
      load 8 after.memory (layout.ycAddress pos + offsetToSp.toNat) = sp →
      load 8 after.memory (layout.ycAddress pos + offsetToIp.toNat) = ip →
      layout.restores ip = [] →
      (∀ other, other ≤ maxCrtPerThread → other ≠ thread.running →
        other ≠ pos → layout.Kept other thread.state.memory after.memory) →
      SwitchStep layout thread (.host pos sp ip)
        { thread with
          state := after
          place := update thread.place pos (.fresh sp ip) }
  | yield {thread : Switching} {point : YieldPoint} {next : Nat} :
      point.retFloat = true →
      point.Hosted thread.running (layout.stackTop thread.running)
        thread.state →
      layout.stackBottom thread.running + point.frameSize ≤
        (thread.state.gpr .rsp).toNat →
      layout.restores (point.resumeAddress thread.state) = point.pops →
      point.link thread.running thread.state =
        BitVec.ofNat 16 (sizeofYieldCtx * next) →
      next ≤ maxCrtPerThread →
      thread.placesAtJump (.yield point) next ≠ .empty →
      SwitchStep layout thread (.yield point)
        { state := layout.arrive (thread.state.run point.upToJump)
          running := next
          place := thread.placesAtJump (.yield point) }
  | schedule {thread : Switching} {after : State} {next : Nat} :
      after.gsBase = layout.gsBase →
      (∀ pos, pos ≤ maxCrtPerThread → pos ≠ thread.running →
        layout.Kept pos thread.state.memory after.memory) →
      layout.JumpedTo next after →
      next ≤ maxCrtPerThread →
      thread.placesAtJump (.schedule next) next ≠ .empty →
      SwitchStep layout thread (.schedule next)
        { state := layout.arrive after
          running := next
          place := thread.placesAtJump (.schedule next) }

/-- The primary runs and hosts no scavengers. -/
structure SwitchInitial (layout : Layout) (thread : Switching) : Prop where
  gsBase : thread.state.gsBase = layout.gsBase
  running : thread.running = 0
  place : ∀ pos, thread.place pos = .empty

/-- What a coroutine finds when control comes to its place. -/
def Returned
    (layout : Layout) (pos : Nat) (after : State) : Place → Prop
  | .empty => False
  | .fresh sp ip => after.gpr .rsp = sp ∧ after.rip = ip
  | .suspended point before =>
      point.SwitchedBack (layout.stackTop pos) before after

/-- The yield context of a place names it, and its stack holds its frame. -/
def HeldAt
    (layout : Layout) (pos : Nat) (memory : Memory) : Place → Prop
  | .empty => True
  | .fresh sp ip =>
      load 8 memory (layout.ycAddress pos + offsetToSp.toNat) = sp ∧
        load 8 memory (layout.ycAddress pos + offsetToIp.toNat) = ip ∧
        layout.restores ip = []
  | .suspended point before =>
      load 8 memory (layout.ycAddress pos + offsetToSp.toNat) =
          point.savedSp before ∧
        load 8 memory (layout.ycAddress pos + offsetToIp.toNat) =
          point.resumeAddress before ∧
        layout.restores (point.resumeAddress before) = point.pops ∧
        layout.stackBottom pos ≤ (point.savedSp before).toNat ∧
        AgreeOn (point.savedSp before).toNat (layout.stackTop pos) memory
          (before.run point.upToJump).memory ∧
        point.retFloat = true ∧
        point.Hosted pos (layout.stackTop pos) before

namespace HeldAt

variable {layout : Layout} {pos : Nat} {place : Place}
variable {before after : Memory}

/-- Writing elsewhere leaves a coroutine where it is. -/
theorem kept (held : HeldAt layout pos before place)
    (same : layout.Kept pos before after) :
    HeldAt layout pos after place := by
  have sp :
      load 8 after (layout.ycAddress pos + offsetToSp.toNat) =
        load 8 before (layout.ycAddress pos + offsetToSp.toNat) :=
    load_congr (same.context.mono (Nat.le_refl _) (by
      show _ + 0 + 8 ≤ _
      omega))
  have ip :
      load 8 after (layout.ycAddress pos + offsetToIp.toNat) =
        load 8 before (layout.ycAddress pos + offsetToIp.toNat) :=
    load_congr (same.context.mono (Nat.le_add_right _ _) (Nat.le_refl _))
  cases place with
  | empty => exact trivial
  | fresh =>
      obtain ⟨heldSp, heldIp, starts⟩ := held
      exact ⟨sp.trans heldSp, ip.trans heldIp, starts⟩
  | suspended =>
      obtain ⟨heldSp, heldIp, code, bottom, stack, rest⟩ := held
      exact ⟨sp.trans heldSp, ip.trans heldIp, code, bottom,
        (same.stack.mono bottom (Nat.le_refl _)).trans stack, rest⟩

/-- Control that comes to a coroutine's place finds it as it was left. -/
theorem returned {state : State}
    (held : HeldAt layout pos state.memory place)
    (jumped : layout.JumpedTo pos state) (notEmpty : place ≠ .empty) :
    Returned layout pos (layout.arrive state) place := by
  cases place with
  | empty => exact absurd rfl notEmpty
  | fresh =>
      obtain ⟨heldSp, heldIp, starts⟩ := held
      have ip := jumped.ip.trans heldIp
      rw [Layout.arrive, ip, starts]
      exact ⟨jumped.sp.trans heldSp, ip⟩
  | suspended =>
      obtain ⟨heldSp, heldIp, code, _, stack, retFloat, hosted⟩ := held
      have ip := jumped.ip.trans heldIp
      rw [Layout.arrive, ip, code]
      exact hosted.switchedBack retFloat ip (jumped.sp.trans heldSp) stack

end HeldAt

/-- Restoring registers writes nothing. -/
theorem YieldPoint.pops_memory (point : YieldPoint) (state : State) :
    (state.run point.pops).memory = state.memory := by
  refine state.run_memory fun instr member later => ?_
  unfold pops at member
  rcases List.mem_append.mp member with front | flags
  · rcases List.mem_append.mp front with gprs | xmms
    · obtain ⟨gpr, _, rfl⟩ := List.mem_map.mp gprs
      rfl
    · obtain ⟨index, _, inPop⟩ := List.mem_flatMap.mp xmms
      rcases List.mem_cons.mp inPop with rfl | isAdd
      · rfl
      · obtain rfl := List.mem_singleton.mp isAdd
        rfl
  · split at flags
    · obtain rfl := List.mem_singleton.mp flags
      rfl
    · cases flags

namespace Switching

variable {layout : Layout} {thread next : Switching}
variable {action : SwitchAction}

/-- Every coroutine that does not run can be found. -/
structure Inv (layout : Layout) (thread : Switching) : Prop where
  gsBase : thread.state.gsBase = layout.gsBase
  running : thread.running ≤ maxCrtPerThread
  held :
    ∀ pos, pos ≤ maxCrtPerThread → pos ≠ thread.running →
      HeldAt layout pos thread.state.memory (thread.place pos)

/-- Where control comes to leaves the memory as it is. -/
theorem arrive_memory {pos : Nat} {state : State} {place : Place}
    (held : HeldAt layout pos state.memory place)
    (jumped : layout.JumpedTo pos state) (notEmpty : place ≠ .empty) :
    (layout.arrive state).memory = state.memory := by
  cases place with
  | empty => exact absurd rfl notEmpty
  | fresh =>
      obtain ⟨_, heldIp, starts⟩ := held
      rw [Layout.arrive, jumped.ip.trans heldIp, starts]
      rfl
  | suspended =>
      obtain ⟨_, heldIp, code, _⟩ := held
      rw [Layout.arrive, jumped.ip.trans heldIp, code, pops_memory]

/-- Control comes to a coroutine, and all others stay where they are. -/
theorem Inv.arrive {state : State} {pos : Nat} {place : Nat → Place}
    (gsBase : state.gsBase = layout.gsBase)
    (inRange : pos ≤ maxCrtPerThread)
    (held :
      ∀ other, other ≤ maxCrtPerThread →
        HeldAt layout other state.memory (place other))
    (jumped : layout.JumpedTo pos state) (notEmpty : place pos ≠ .empty) :
    Inv layout ⟨layout.arrive state, pos, place⟩ ∧
      Returned layout pos (layout.arrive state) (place pos) := by
  have memory := arrive_memory (held pos inRange) jumped notEmpty
  refine ⟨⟨?_, inRange, fun other otherInRange _ => ?_⟩,
    (held pos inRange).returned jumped notEmpty⟩
  · exact (State.run_gsBase _ _).trans gsBase
  · rw [memory]
    exact held other otherInRange

/-- A yield leaves the coroutine's place behind, and jumps to its link's. -/
theorem Inv.yielded {point : YieldPoint} {target : Nat}
    (inv : Inv layout thread)
    (retFloat : point.retFloat = true)
    (hosted :
      point.Hosted thread.running (layout.stackTop thread.running)
        thread.state)
    (room :
      layout.stackBottom thread.running + point.frameSize ≤
        (thread.state.gpr .rsp).toNat)
    (code :
      layout.restores (point.resumeAddress thread.state) = point.pops)
    (link :
      point.link thread.running thread.state =
        BitVec.ofNat 16 (sizeofYieldCtx * target))
    (inRange : target ≤ maxCrtPerThread) :
    layout.JumpedTo target (thread.state.run point.upToJump) ∧
      ∀ pos, pos ≤ maxCrtPerThread →
        HeldAt layout pos (thread.state.run point.upToJump).memory
          (thread.placesAtJump (.yield point) pos) := by
  have out := hosted.switchedOut
  have contexts (pos : Nat) :
      YieldPoint.ycAddress thread.state pos = layout.ycAddress pos := by
    rw [YieldPoint.ycAddress, inv.gsBase, Layout.ycAddress]
  have target64 :
      (point.link thread.running thread.state).setWidth 64 =
        BitVec.ofNat 64 (sizeofYieldCtx * target) := by
    rw [link]
    have small : sizeofYieldCtx * target < 2 ^ 16 := by
      simp only [sizeofYieldCtx, maxCrtPerThread] at *
      omega
    apply BitVec.eq_of_toNat_eq
    rw [BitVec.toNat_setWidth, BitVec.toNat_ofNat, BitVec.toNat_ofNat,
      Nat.mod_eq_of_lt small]
  have saved :
      (point.savedSp thread.state).toNat =
        (thread.state.gpr .rsp).toNat - point.frameSize :=
    toNat_sub_room hosted.room
  refine ⟨⟨?_, ?_⟩, fun pos posInRange => ?_⟩
  · rw [out.sp, target64, toNat_ycAddress hosted.contexts inRange (by decide),
      contexts]
  · rw [out.ip, target64, toNat_ycAddress hosted.contexts inRange (by decide),
      contexts]
  · by_cases own : pos = thread.running
    · rw [own]
      simp only [placesAtJump, update_self, HeldAt, ← contexts]
      exact ⟨out.ownSp, out.ownIp, code, by omega, .refl _, retFloat, hosted⟩
    · simp only [placesAtJump, update_of_ne own]
      refine (inv.held pos posInRange own).kept
        ⟨fun address fromBottom beforeTop => ?_,
          fun address fromStart beforeEnd => ?_⟩
      · have apart :=
          layout.stacksApart pos thread.running posInRange inv.running own
        have contextApart := layout.contextsApart pos posInRange
        have bounds :=
          ycAddress_bounds thread.state inv.running
        rw [contexts, contexts, contexts] at bounds
        have inStack := hosted.inStack
        unfold Layout.ycAddress at bounds
        refine out.elsewhere address ?_ ?_
        · omega
        · rw [contexts, Layout.ycAddress]
          omega
      · have ownApart := layout.contextsApart thread.running inv.running
        have inStack := hosted.inStack
        refine out.elsewhere address ?_ ?_
        · unfold Layout.ycAddress at fromStart beforeEnd
          simp only [sizeofYieldCtx, maxCrtPerThread] at *
          omega
        · rw [contexts]
          unfold Layout.ycAddress at *
          simp only [sizeofYieldCtx] at *
          omega

theorem Initial.inv (initial : SwitchInitial layout thread) :
    Inv layout thread where
  gsBase := initial.gsBase
  running := by
    rw [initial.running]
    exact Nat.zero_le _
  held pos _ _ := by
    rw [initial.place]
    exact trivial

/-- Every step keeps the coroutines, and the one it gives control to is back. -/
theorem Inv.step (inv : Inv layout thread)
    (taken : SwitchStep layout thread action next) :
    Inv layout next ∧
      (action.switches = true →
        Returned layout next.running next.state
          (thread.placesAtJump action next.running)) := by
  cases taken with
  | work gsBase keeps =>
      refine ⟨⟨gsBase, inv.running, fun pos inRange other => ?_⟩,
        fun switches => by cases switches⟩
      exact (inv.held pos inRange other).kept (keeps pos inRange other)
  | @host after pos sp ip gsBase notRunning _ heldSp heldIp starts keeps =>
      refine ⟨⟨gsBase, inv.running, fun other inRange differs => ?_⟩,
        fun switches => by cases switches⟩
      by_cases own : other = pos
      · simp only [own, update_self]
        exact ⟨heldSp, heldIp, starts⟩
      · simp only [update_of_ne own]
        exact (inv.held other inRange differs).kept
          (keeps other inRange differs own)
  | yield retFloat hosted room code link inRange notEmpty =>
      obtain ⟨jumped, held⟩ :=
        inv.yielded retFloat hosted room code link inRange
      have arrives := Inv.arrive
        ((State.run_gsBase _ _).trans inv.gsBase) inRange held jumped notEmpty
      exact ⟨arrives.1, fun _ => arrives.2⟩
  | @schedule after target gsBase keeps jumped inRange notEmpty =>
      have held (other : Nat) (otherInRange : other ≤ maxCrtPerThread) :
          HeldAt layout other after.memory
            (thread.placesAtJump (.schedule target) other) := by
        by_cases own : other = thread.running
        · simp only [placesAtJump, own, update_self]
          exact trivial
        · simp only [placesAtJump, update_of_ne own]
          exact (inv.held other otherInRange own).kept
            (keeps other otherInRange own)
      have arrives := Inv.arrive gsBase inRange held jumped notEmpty
      exact ⟨arrives.1, fun _ => arrives.2⟩

/-- A coroutine that does not run stays suspended where it is. -/
theorem place_of_suspended {pos : Nat} {point : YieldPoint} {before : State}
    (taken : SwitchStep layout thread action next)
    (notRunning : pos ≠ thread.running)
    (isSuspended : thread.place pos = .suspended point before) :
    thread.placesAtJump action pos = .suspended point before ∧
      next.place pos = .suspended point before := by
  have other (place : Place) :
      update thread.place thread.running place pos =
        .suspended point before := by
    rw [update_of_ne notRunning, isSuspended]
  cases taken with
  | work => exact ⟨isSuspended, isSuspended⟩
  | @host after target sp ip _ _ isEmpty =>
      have differs : pos ≠ target := by
        rintro rfl
        rw [isSuspended] at isEmpty
        cases isEmpty
      refine ⟨isSuspended, ?_⟩
      simp only [update_of_ne differs, isSuspended]
  | yield => exact ⟨other _, other _⟩
  | schedule => exact ⟨other _, other _⟩

/-- Only a switch changes which coroutine runs. -/
theorem switches_of_running
    (taken : SwitchStep layout thread action next)
    (changes : next.running ≠ thread.running) :
    action.switches = true := by
  cases taken with
  | work => exact absurd rfl changes
  | host => exact absurd rfl changes
  | yield => rfl
  | schedule => rfl

/-- A suspended coroutine that gets control back finds what it left. -/
theorem Inv.comesBack {pos : Nat} {point : YieldPoint} {before : State}
    {run : List (SwitchAction × Switching)}
    (valid : FiniteRun (SwitchStep layout) thread run)
    (inv : Inv layout thread)
    (notRunning : thread.running ≠ pos)
    (isSuspended : thread.place pos = .suspended point before)
    (away : ∀ entry ∈ run.dropLast, entry.2.running ≠ pos)
    (back : (lastState thread run).running = pos) :
    point.SwitchedBack (layout.stackTop pos) before
      (lastState thread run).state := by
  induction valid with
  | nil => exact absurd back notRunning
  | @cons first second action rest taken later inductionHypothesis =>
      obtain ⟨atJump, stays⟩ :=
        place_of_suspended taken (Ne.symm notRunning) isSuspended
      obtain ⟨secondInv, returns⟩ := inv.step taken
      cases rest with
      | nil =>
          have switches := switches_of_running taken fun same =>
            notRunning (same.symm.trans back)
          have returned := returns switches
          have isPos : second.running = pos := back
          rw [isPos, atJump] at returned
          exact returned
      | cons entry rest =>
          rw [List.dropLast_cons_cons] at away
          refine inductionHypothesis secondInv ?_ stays ?_ back
          · exact away (action, second) List.mem_cons_self
          · exact fun other member =>
              away other (List.mem_cons_of_mem _ member)

/--
Whatever the coroutines of the thread do and in whatever order they take
turns: when a coroutine that has yielded gets control back, through a yield or
through the scheduler, every register that its yield preserves and its stack
are as they were, and it goes on behind its yield.
-/
theorem yield_returns {first : Switching} {point : YieldPoint}
    {rest : List (SwitchAction × Switching)}
    (reachable :
      Reachable (SwitchInitial layout) (SwitchStep layout) thread)
    (valid :
      FiniteRun (SwitchStep layout) thread ((.yield point, first) :: rest))
    (away :
      ∀ entry ∈ ((SwitchAction.yield point, first) :: rest).dropLast,
        entry.2.running ≠ thread.running)
    (back : (lastState first rest).running = thread.running) :
    point.SwitchedBack (layout.stackTop thread.running) thread.state
      (lastState first rest).state := by
  have inv : Inv layout thread := by
    refine Reachable.invariant ?_ ?_ reachable
    · exact fun _ initial => Initial.inv initial
    · exact fun _ _ _ inv taken => (inv.step taken).1
  cases valid with
  | cons taken later =>
      obtain ⟨firstInv, returns⟩ := inv.step taken
      have atJump :
          thread.placesAtJump (.yield point) thread.running =
            .suspended point thread.state :=
        update_self ..
      have isPlace :
          first.place thread.running = .suspended point thread.state := by
        cases taken
        exact update_self ..
      cases rest with
      | nil =>
          have returned := returns rfl
          have isOwn : first.running = thread.running := back
          rw [isOwn, atJump] at returned
          exact returned
      | cons entry rest =>
          rw [List.dropLast_cons_cons] at away
          refine Inv.comesBack later firstInv ?_ isPlace ?_ back
          · exact away (.yield point, first) List.mem_cons_self
          · exact fun other member =>
              away other (List.mem_cons_of_mem _ member)

/-- A yield of a primary at which `rbx` is live. -/
def primaryYield : YieldPoint where
  numbering := targetNumbering
  aliveRegs := .filterValidRegsInPnY fun reg => decide (reg = .gpr .rbx)
  isCB := false
  crtPos := none
  retFloat := true
  isNormalYield := true

/-- A primary whose `normal_next` is 20, with its yield contexts at 65536. -/
def primaryState : State where
  gpr reg := if reg = .rsp then 135000 else 7
  xmm _ := 9
  eflags := 0x246
  rip := 1024
  gsBase := 65536
  memory address := if address = 65554 then 20 else 0

/-- Stacks of 4096 bytes each, and one yield in the program. -/
def smallStacks : Layout where
  gsBase := 65536
  stackBottom pos := 131072 + 4096 * pos
  stackTop pos := 131072 + 4096 * pos + 4096
  restores ip :=
    if ip = primaryYield.resumeAddress primaryState then primaryYield.pops
    else []
  stacksApart pos other _ _ differ := by omega
  contexts := by decide
  contextsApart pos _ := by
    left
    show 65536 + 20 * 129 ≤ _
    omega

/-- The primary hosts a scavenger and is about to yield to it. -/
def aboutToYield : Switching where
  state := primaryState
  running := 0
  place := update (fun _ => .empty) 1 (.fresh 0 0)

/-- The scavenger has got control from the primary. -/
def scavengerStarted : Switching where
  state := smallStacks.arrive (primaryState.run primaryYield.upToJump)
  running := 1
  place := aboutToYield.placesAtJump (.yield primaryYield)

/-- The state in which the scheduler jumps to the primary. -/
def schedulerJumps : State :=
  { scavengerStarted.state with
    gpr :=
      update scavengerStarted.state.gpr .rsp
        (load 8 scavengerStarted.state.memory
          (smallStacks.ycAddress 0 + offsetToSp.toNat))
    rip :=
      load 8 scavengerStarted.state.memory
        (smallStacks.ycAddress 0 + offsetToIp.toNat) }

theorem aboutToYield_reachable :
    Reachable (SwitchInitial smallStacks) (SwitchStep smallStacks)
      aboutToYield := by
  have start :
      Reachable (SwitchInitial smallStacks) (SwitchStep smallStacks)
        ⟨primaryState, 0, fun _ => .empty⟩ :=
    .start ⟨rfl, rfl, fun _ => rfl⟩
  exact start.step (.host rfl (by decide) rfl (by decide) (by decide)
    (by decide) fun _ _ _ _ => ⟨.refl _, .refl _⟩)

theorem aboutToYield_yields :
    SwitchStep smallStacks aboutToYield (.yield primaryYield)
      scavengerStarted := by
  have code :
      smallStacks.restores (primaryYield.resumeAddress primaryState) =
        primaryYield.pops := by
    simp only [smallStacks, if_true]
  refine .yield rfl ?_ (by decide) code (by decide) (by decide) ?_
  · refine ⟨.primary, by decide, by decide, by decide, by decide, ?_⟩
    intro symbol isSymbol
    cases isSymbol
  · intro isEmpty
    cases isEmpty

theorem scavengerStarted_schedules :
    SwitchStep smallStacks scavengerStarted (.schedule 0)
      ⟨smallStacks.arrive schedulerJumps, 0,
        scavengerStarted.placesAtJump (.schedule 0)⟩ := by
  have gsBase : schedulerJumps.gsBase = smallStacks.gsBase :=
    (State.run_gsBase _ _).trans (State.run_gsBase _ _)
  refine .schedule gsBase (fun _ _ _ => ⟨.refl _, .refl _⟩) ?_
    (Nat.zero_le _) ?_
  · exact ⟨update_self Gpr.rsp _ scavengerStarted.state.gpr, rfl⟩
  · intro isEmpty
    cases isEmpty

theorem yield_returns_schedulerJumps :
    primaryYield.SwitchedBack (131072 + 4096) primaryState
      (smallStacks.arrive schedulerJumps) := by
  have back :
      primaryYield.SwitchedBack (smallStacks.stackTop aboutToYield.running)
        aboutToYield.state (smallStacks.arrive schedulerJumps) := by
    refine yield_returns aboutToYield_reachable
      (.cons aboutToYield_yields (.cons scavengerStarted_schedules (.nil _)))
      ?_ rfl
    intro entry member
    obtain rfl := List.mem_singleton.mp member
    exact Nat.one_ne_zero
  exact back

end Switching

end Msh
