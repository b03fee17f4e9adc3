import Msh.Runtime.Cleanup

namespace Msh

open Function

/-!
# Calling the `init` of new scavengers

`call_init_for_new_scav` calls the `init` of each scavenger that a thread has
just been given, and an `init` may yield like all code of a scavenger.  While
it runs, its slot is linked to itself, so that every yield comes back to it.
-/

namespace PrimaryThreadCtx

/-- A yield of the coroutine at a position, and the position it goes to. -/
def yieldFrom
    (ctx : PrimaryThreadCtx) (pos : Nat) (taken : YieldTaken) :
    PrimaryThreadCtx × Int :=
  (ctx.updateYc pos fun yc => { yc with sp := taken.sp, ip := taken.ip },
    (if taken.special then (ctx.ycs pos).specialNext
      else (ctx.ycs pos).normalNext) / sizeofYieldCtx)

/-- The coroutine at a position runs; `none` when a yield leaves it. -/
def runInit (pos : Nat) :
    List YieldTaken → PrimaryThreadCtx → Option PrimaryThreadCtx
  | [], ctx => some ctx
  | taken :: rest, ctx =>
      let yielded := ctx.yieldFrom pos taken
      if yielded.2 = pos then runInit pos rest yielded.1 else none

/--
`call_init_for_new_scav`, at one position, for an `init` with these yields:
the links of the slot point to the slot while it runs.
-/
def callInitAt
    (ctx : PrimaryThreadCtx) (pos : Nat) (yields : List YieldTaken) :
    Option PrimaryThreadCtx :=
  let saved := ctx.ycs pos
  let linked :=
    ctx.updateYc pos fun yc =>
      { yc with
        normalNext := (pos * sizeofYieldCtx : Nat)
        specialNext := (pos * sizeofYieldCtx : Nat) }
  (runInit pos yields linked).map fun ran =>
    ran.updateYc pos fun yc =>
      { yc with
        sp := saved.sp
        ip := saved.ip
        normalNext := saved.normalNext
        specialNext := saved.specialNext }

/-- A slot whose links are set apart, as while its `init` runs. -/
def withYc (ctx : PrimaryThreadCtx) (pos : Nat) (sp ip : BitVec 64) :
    PrimaryThreadCtx :=
  ctx.updateYc pos fun _ =>
    { sp := sp
      ip := ip
      normalNext := (pos * sizeofYieldCtx : Nat)
      specialNext := (pos * sizeofYieldCtx : Nat) }

theorem yieldFrom_withYc
    (ctx : PrimaryThreadCtx) (pos : Nat) (sp ip : BitVec 64)
    (taken : YieldTaken) :
    (ctx.withYc pos sp ip).yieldFrom pos taken =
      (ctx.withYc pos taken.sp taken.ip, (pos : Int)) := by
  have back : ((pos * sizeofYieldCtx : Nat) : Int) / sizeofYieldCtx = pos := by
    rw [Int.natCast_mul]
    exact Int.mul_ediv_cancel _ (by decide)
  simp only [yieldFrom, withYc, updateYc, update_self, update_idem, ite_self,
    back]

theorem runInit_withYc
    (ctx : PrimaryThreadCtx) (pos : Nat) (sp ip : BitVec 64)
    (yields : List YieldTaken) :
    ∃ lastSp lastIp,
      runInit pos yields (ctx.withYc pos sp ip) =
        some (ctx.withYc pos lastSp lastIp) := by
  induction yields generalizing sp ip with
  | nil => exact ⟨sp, ip, rfl⟩
  | cons taken rest inductionHypothesis =>
      simp only [runInit, yieldFrom_withYc, if_true]
      exact inductionHypothesis taken.sp taken.ip

/-- However an `init` yields, it goes on, and its slot is as before. -/
theorem callInitAt_eq
    (ctx : PrimaryThreadCtx) (pos : Nat) (yields : List YieldTaken) :
    ctx.callInitAt pos yields = some ctx := by
  have linked :
      (ctx.updateYc pos fun yc =>
        { yc with
          normalNext := (pos * sizeofYieldCtx : Nat)
          specialNext := (pos * sizeofYieldCtx : Nat) }) =
        ctx.withYc pos (ctx.ycs pos).sp (ctx.ycs pos).ip :=
    rfl
  obtain ⟨lastSp, lastIp, ran⟩ :=
    ctx.runInit_withYc pos (ctx.ycs pos).sp (ctx.ycs pos).ip yields
  simp only [callInitAt, linked, ran, Option.map_some]
  simp only [withYc, updateYc, update_idem, update_eq_self]

end PrimaryThreadCtx

namespace Tables

/--
`call_init_for_new_scav` at the given positions, with the scavengers whose
`init` it calls.  An `init` yields as given; `none` when control is lost.
-/
def callInits
    (tid : Tid) (yields : Int → List YieldTaken) :
    List Nat → Tables → Option (Tables × List Int)
  | [], tables => some (tables, [])
  | pos :: rest, tables =>
      let crtIdx := (tables.primTable tid).tlGetCrtIdxAt pos
      let crt := tables.scavTable crtIdx
      if crtIdx = -1 ∨ crt.inited ∨ crt.init = none then
        tables.callInits tid yields rest
      else
        ((tables.primTable tid).callInitAt pos (yields crtIdx)).bind
          fun ran =>
            (((tables.updatePrim tid fun _ => ran).updateScav crtIdx
                fun crt => { crt with inited := true }).callInits
              tid yields rest).map
                fun called => (called.1, crtIdx :: called.2)

/-- The scavengers whose `init` `call_init_for_new_scav` calls. -/
def initCalls (tables : Tables) (tid : Tid) : List Int :=
  ((tables.callInits tid (fun _ => []) (List.range' 1 maxCrtPerThread)).getD
    (tables, [])).2

/-- What calling the `init` of the scavengers at some positions has done. -/
structure Inited (tid : Tid) (positions : List Nat) (before after : Tables)
    (calls : List Int) : Prop where
  nodup : calls.Nodup
  entry :
    ∀ idx, after.scavTable idx =
      { before.scavTable idx with
        inited := (before.scavTable idx).inited || decide (idx ∈ calls) }
  called :
    ∀ idx ∈ calls,
      (before.scavTable idx).inited = false ∧
        (before.scavTable idx).init ≠ none ∧
        ∃ pos ∈ positions,
          (before.primTable tid).tlGetCrtIdxAt pos = idx ∧ idx ≠ -1
  covers :
    ∀ pos ∈ positions, ∀ idx,
      (before.primTable tid).tlGetCrtIdxAt pos = idx → idx ≠ -1 →
      (before.scavTable idx).init ≠ none →
        (after.scavTable idx).inited = true

namespace Inited

variable {tid : Tid} {pos : Nat} {positions : List Nat}
variable {before after : Tables} {calls : List Int}

theorem nil : Inited tid [] before before [] where
  nodup := .nil
  entry idx := by simp
  called idx member := absurd member List.not_mem_nil
  covers pos member := absurd member List.not_mem_nil

/-- A position at which there is nothing to call. -/
theorem skip
    (skips :
      (before.primTable tid).tlGetCrtIdxAt pos = -1 ∨
        (before.scavTable
          ((before.primTable tid).tlGetCrtIdxAt pos)).inited = true ∨
        (before.scavTable
          ((before.primTable tid).tlGetCrtIdxAt pos)).init = none)
    (rest : Inited tid positions before after calls) :
    Inited tid (pos :: positions) before after calls where
  nodup := rest.nodup
  entry := rest.entry
  called idx member := by
    obtain ⟨notInited, hasInit, query, inRest, atQuery⟩ :=
      rest.called idx member
    exact ⟨notInited, hasInit, query, List.mem_cons_of_mem _ inRest, atQuery⟩
  covers := by
    intro query member idx atQuery notFree hasInit
    rcases List.mem_cons.mp member with rfl | inRest
    · rw [atQuery] at skips
      rcases skips with free | inited | noInit
      · exact absurd free notFree
      · rw [rest.entry, inited]
        rfl
      · exact absurd noInit hasInit
    · exact rest.covers query inRest idx atQuery notFree hasInit

/-- A position at which an `init` is called. -/
theorem call {idx : Int}
    (atPos : (before.primTable tid).tlGetCrtIdxAt pos = idx)
    (notFree : idx ≠ -1)
    (notInited : (before.scavTable idx).inited = false)
    (hasInit : (before.scavTable idx).init ≠ none)
    (rest :
      Inited tid positions
        (before.updateScav idx fun crt => { crt with inited := true })
        after calls) :
    Inited tid (pos :: positions) before after (idx :: calls) where
  nodup := by
    refine List.nodup_cons.mpr ⟨fun again => ?_, rest.nodup⟩
    have wasNot := (rest.called idx again).1
    rw [updateScav_self] at wasNot
    cases wasNot
  entry query := by
    rw [rest.entry]
    by_cases own : query = idx
    · subst query
      simp
    · simp [updateScav_of_ne _ _ own, own]
  called query member := by
    rcases List.mem_cons.mp member with rfl | inRest
    · exact ⟨notInited, hasInit, pos, List.mem_cons_self, atPos, notFree⟩
    · have other : query ≠ idx := by
        rintro rfl
        have wasNot := (rest.called query inRest).1
        rw [updateScav_self] at wasNot
        cases wasNot
      have called := rest.called query inRest
      rw [updateScav_of_ne _ _ other, updateScav_primTable] at called
      obtain ⟨notYet, has, place, inPositions, atPlace⟩ := called
      exact ⟨notYet, has, place, List.mem_cons_of_mem _ inPositions, atPlace⟩
  covers := by
    intro query member item atQuery itemNotFree itemHasInit
    by_cases own : item = idx
    · rw [own, rest.entry, updateScav_self]
      rfl
    · rcases List.mem_cons.mp member with rfl | inRest
      · exact absurd (atQuery.symm.trans atPos) own
      · refine rest.covers query inRest item atQuery itemNotFree ?_
        rw [updateScav_of_ne _ _ own]
        exact itemHasInit

end Inited

/--
However the `init` functions yield, `call_init_for_new_scav` comes to its end
with the tables that `callInitForNewScav` gives.
-/
theorem callInits_eq (tables : Tables) (tid : Tid) :
    (∀ yields,
      tables.callInits tid yields (List.range' 1 maxCrtPerThread) =
        some (tables.callInitForNewScav tid, tables.initCalls tid)) ∧
      Inited tid (List.range' 1 maxCrtPerThread) tables
        (tables.callInitForNewScav tid) (tables.initCalls tid) := by
  have spec (positions : List Nat) (before : Tables) :
      ∃ after calls,
        (∀ yields,
          before.callInits tid yields positions = some (after, calls)) ∧
        after =
          positions.foldl
            (fun called pos =>
              let crtIdx := (called.primTable tid).tlGetCrtIdxAt pos
              let crt := called.scavTable crtIdx
              if crtIdx = -1 ∨ crt.inited ∨ crt.init = none then called
              else
                called.updateScav crtIdx fun crt =>
                  { crt with inited := true })
            before ∧
        Inited tid positions before after calls := by
    induction positions generalizing before with
    | nil => exact ⟨before, [], fun _ => rfl, rfl, .nil⟩
    | cons pos rest inductionHypothesis =>
        simp only [callInits, List.foldl_cons]
        split
        · next skips =>
            obtain ⟨after, calls, runs, same, inited⟩ :=
              inductionHypothesis before
            exact ⟨after, calls, runs, same, inited.skip skips⟩
        · next calls =>
            simp only [not_or, Bool.not_eq_true] at calls
            obtain ⟨after, later, runs, same, inited⟩ :=
              inductionHypothesis
                (before.updateScav
                  ((before.primTable tid).tlGetCrtIdxAt pos)
                  fun crt => { crt with inited := true })
            refine ⟨after, _ :: later, fun yields => ?_, same,
              inited.call rfl calls.1 calls.2.1 calls.2.2⟩
            simp only [PrimaryThreadCtx.callInitAt_eq, Option.bind_some,
              updatePrim_eq_self (f := fun _ => before.primTable tid) rfl,
              runs, Option.map_some]
  obtain ⟨after, calls, runs, same, inited⟩ :=
    spec (List.range' 1 maxCrtPerThread) tables
  have isAfter : tables.callInitForNewScav tid = after := same.symm
  have isCalls : tables.initCalls tid = calls := by
    rw [initCalls, runs, Option.getD_some]
  rw [isAfter, isCalls]
  exact ⟨runs, inited⟩

end Tables

end Msh
