import Mathlib.Data.List.TakeWhile
import Msh.Library.LineReader
import Msh.Runtime.Tables

/-!
# Loading the scavenger pool

`init_scav_table` reads a file with a command on each line and makes an entry
of `SCAV_TABLE` for each one.  It reads by pieces that fit into `line_buf`, so
that a long line comes in more than one piece, and it looks at how many
entries there are only before it makes another one.
-/

namespace Msh

open Function LineReader

/-- `MAX_SCV_CMD_LEN` -/
abbrev maxScvCmdLen : Nat := 256

/-- What is called for a command.  `dlopen` and `dlsym` succeed, but for
`init`, which may not exist. -/
structure PoolLibs where
  wordexp : List Char → List String
  dlopen : Option String → Handle
  dlsymEntry : Handle → BitVec 64
  dlsymInit : Handle → Option (BitVec 64)

/-- How `init_scav_table` ends -/
inductive PoolLoad where
  | loaded (scavTable : Int → CoroutineCtx) (scavCounts : Nat)
  /-- `err_check` has printed a message. -/
  | exited (message : String)
  /-- An entry was written behind `SCAV_TABLE`. -/
  | outside (idx : Nat)

namespace PoolLibs

variable (libs : PoolLibs)

/-- The entry for a command: `parse_command`, `dlopen` and `dlsym` -/
def commandEntry (ctx : CoroutineCtx) (cmd : List Char) : CoroutineCtx :=
  { ctx with
    argc := (libs.wordexp cmd).length
    argv := libs.wordexp cmd
    libHandle := some (libs.dlopen (libs.wordexp cmd).head?)
    entry := libs.dlsymEntry (libs.dlopen (libs.wordexp cmd).head?)
    yc := none
    finished := false
    init := libs.dlsymInit (libs.dlopen (libs.wordexp cmd).head?)
    inited := false }

end PoolLibs

/-- The string in a buffer, `cmd[strcspn(cmd, "\n")] = 0` -/
def cutCommand (buffer : List Char) : List Char :=
  (buffer.takeWhile (· ≠ '\x00')).takeWhile (· ≠ '\n')

/-- `line_buf[0] == '#'` -/
def isComment (line : List Char) : Bool :=
  line.head? = some '#'

namespace PoolLibs

variable (libs : PoolLibs)

/-- `init_scav_table_entry` -/
def initScavTableEntry (ctx : CoroutineCtx) (buffer : List Char) :
    CoroutineCtx :=
  libs.commandEntry ctx (cutCommand buffer)

/-- The loop of `init_scav_table` over what `fgets` returns -/
def loadPieces :
    (Int → CoroutineCtx) → Nat → List (List Char) → PoolLoad
  | scavTable, scavCounts, [] => .loaded scavTable scavCounts
  | scavTable, scavCounts, lineBuf :: rest =>
      if isComment lineBuf then loadPieces scavTable scavCounts rest
      else if maxActiveCrtNum < scavCounts then
        .exited "Too many scavengers in the pool\n"
      else if maxActiveCrtNum ≤ scavCounts then
        -- The check lets this one pass, but the table ends before it.
        .outside scavCounts
      else
        loadPieces
          (update scavTable scavCounts
            (libs.initScavTableEntry (scavTable scavCounts) lineBuf))
          (scavCounts + 1) rest

end PoolLibs

/-- `SCAV_TABLE[i].lib_handle = NULL` -/
def clearHandles (scavTable : Int → CoroutineCtx) : Int → CoroutineCtx :=
  fun idx =>
    if 0 ≤ idx ∧ idx < maxActiveCrtNum then
      { scavTable idx with libHandle := none }
    else scavTable idx

/-- The pieces of the pool; the buffer ends with a `0`. -/
def poolPieces (pool : List Char) : List (List Char) :=
  pieces '\n' (maxScvCmdLen - 1) pool

namespace PoolLibs

variable (libs : PoolLibs)

/-- `init_scav_table` for a pool that can be opened -/
def initScavTable (scavTable : Int → CoroutineCtx) (pool : List Char) :
    PoolLoad :=
  libs.loadPieces (clearHandles scavTable) 0 (poolPieces pool)

end PoolLibs

/-! ## Line by line -/

/-- The text of a line -/
def lineText (line : List Char) : List Char :=
  line.takeWhile (· ≠ '\n')

/-- The commands of a pool: its lines that are not comments -/
def poolCommands (pool : List Char) : List (List Char) :=
  ((lines '\n' pool).filter (!isComment ·)).map lineText

/-- Entries for commands, from an index on -/
def placeCommands (libs : PoolLibs) (scavTable : Int → CoroutineCtx)
    (first : Nat) (commands : List (List Char)) : Int → CoroutineCtx :=
  fun idx =>
    if idx < first then scavTable idx
    else
      match commands[(idx - first).toNat]? with
      | some cmd => libs.commandEntry (scavTable idx) cmd
      | none => scavTable idx

/-- A pool is loaded line by line, if its commands have room in the table. -/
structure LoadsLines (pool : List Char) : Prop where
  within :
    (poolCommands pool).length ≤ maxActiveCrtNum →
      ∀ libs scavTable,
        PoolLibs.initScavTable libs scavTable pool =
          .loaded
            (placeCommands libs (clearHandles scavTable) 0
              (poolCommands pool))
            (poolCommands pool).length
  tooMany :
    maxActiveCrtNum < (poolCommands pool).length →
      ∀ libs scavTable,
        PoolLibs.initScavTable libs scavTable pool =
          .exited "Too many scavengers in the pool\n"

/--
A line is treated as a whole.  A command needs a piece of its own, and a long
comment is only skipped if each of its pieces looks like a comment.
-/
def FitsBuffer (line : List Char) : Prop :=
  if isComment line then
    ∀ count, (maxScvCmdLen - 1) * count < line.length →
      (line)[(maxScvCmdLen - 1) * count]? = some '#'
  else line.length ≤ maxScvCmdLen - 1 ∧ '\x00' ∉ line

/-! ## The entries that are made -/

/-- The commands of which entries are made -/
def pieceCommands (pieces : List (List Char)) : List (List Char) :=
  (pieces.filter (!isComment ·)).map cutCommand

theorem placeCommands_nil (libs : PoolLibs)
    (scavTable : Int → CoroutineCtx) (first : Nat) :
    placeCommands libs scavTable first [] = scavTable := by
  funext idx
  simp [placeCommands]

theorem placeCommands_cons (libs : PoolLibs)
    (scavTable : Int → CoroutineCtx) (first : Nat) (cmd : List Char)
    (rest : List (List Char)) :
    placeCommands libs
        (update scavTable first (libs.commandEntry (scavTable first) cmd))
        (first + 1) rest =
      placeCommands libs scavTable first (cmd :: rest) := by
  funext idx
  unfold placeCommands
  rcases Int.lt_trichotomy idx first with below | rfl | above
  · rw [if_pos (by omega), if_pos below, update_of_ne (by omega)]
  · rw [if_pos (by omega), if_neg (Int.lt_irrefl _), update_self]
    simp
  · have position :
        (idx - first).toNat = (idx - (first + 1 : Nat)).toNat + 1 := by
      omega
    rw [if_neg (by omega), if_neg (by omega), update_of_ne (by omega),
      position, List.getElem?_cons_succ]

/-- As many entries are made as there are pieces that are not comments. -/
theorem loadPieces_eq (libs : PoolLibs) (scavTable : Int → CoroutineCtx)
    {first : Nat} (hasRoom : first ≤ maxActiveCrtNum)
    (pieces : List (List Char)) :
    libs.loadPieces scavTable first pieces =
      if first + (pieceCommands pieces).length ≤ maxActiveCrtNum then
        .loaded (placeCommands libs scavTable first (pieceCommands pieces))
          (first + (pieceCommands pieces).length)
      else .outside maxActiveCrtNum := by
  induction pieces generalizing scavTable first with
  | nil =>
      rw [PoolLibs.loadPieces, pieceCommands, List.filter_nil, List.map_nil,
        List.length_nil, Nat.add_zero, if_pos hasRoom, placeCommands_nil]
  | cons piece rest inductionHypothesis =>
      rw [PoolLibs.loadPieces]
      by_cases comment : isComment piece = true
      · have same : pieceCommands (piece :: rest) = pieceCommands rest := by
          rw [pieceCommands, List.filter_cons_of_neg (by simp [comment])]
          rfl
        rw [if_pos comment, inductionHypothesis _ hasRoom, same]
      · have isCons : pieceCommands (piece :: rest) =
            cutCommand piece :: pieceCommands rest := by
          rw [pieceCommands, List.filter_cons_of_pos (by simp [comment])]
          rfl
        rw [if_neg comment, if_neg (by omega), isCons, List.length_cons]
        by_cases isFull : maxActiveCrtNum ≤ first
        · rw [if_pos isFull, if_neg (by omega), Nat.le_antisymm hasRoom isFull]
        · rw [if_neg isFull, inductionHypothesis _ (by omega),
            PoolLibs.initScavTableEntry, placeCommands_cons, Nat.add_assoc,
            Nat.add_comm 1]

theorem initScavTable_eq (libs : PoolLibs) (scavTable : Int → CoroutineCtx)
    (pool : List Char) :
    libs.initScavTable scavTable pool =
      if (pieceCommands (poolPieces pool)).length ≤ maxActiveCrtNum then
        .loaded
          (placeCommands libs (clearHandles scavTable) 0
            (pieceCommands (poolPieces pool)))
          (pieceCommands (poolPieces pool)).length
      else .outside maxActiveCrtNum := by
  rw [PoolLibs.initScavTable, loadPieces_eq libs _ (Nat.zero_le _),
    Nat.zero_add]

/-- The check for too many scavengers comes too late to stop anything. -/
theorem initScavTable_ne_exited (libs : PoolLibs)
    (scavTable : Int → CoroutineCtx) (pool : List Char) (message : String) :
    libs.initScavTable scavTable pool ≠ .exited message := by
  rw [initScavTable_eq]
  split <;> exact nofun

/-! ## One line -/

/-- The commands that come of one line -/
def lineCommands (line : List Char) : List (List Char) :=
  pieceCommands (poolPieces line)

theorem pieceCommands_poolPieces (pool : List Char) :
    pieceCommands (poolPieces pool) =
      (lines '\n' pool).flatMap lineCommands := by
  rw [poolPieces, pieces_eq (by decide), pieceCommands, List.filter_flatMap,
    List.map_flatMap]
  rfl

/-- What should come of one line -/
def ownCommands (line : List Char) : List (List Char) :=
  if isComment line then [] else [lineText line]

theorem poolCommands_eq (pool : List Char) :
    poolCommands pool = (lines '\n' pool).flatMap ownCommands := by
  rw [poolCommands]
  induction lines '\n' pool with
  | nil => rfl
  | cons line rest inductionHypothesis =>
      rw [List.flatMap_cons, ← inductionHypothesis, ownCommands]
      by_cases comment : isComment line = true
      · rw [List.filter_cons_of_neg (by simp [comment]), if_pos comment,
          List.nil_append]
      · rw [List.filter_cons_of_pos (by simp [comment]), if_neg comment,
          List.map_cons, List.singleton_append]

variable {line : List Char}

/-- A line that is not a comment begins with a piece that is not one. -/
theorem lineCommands_of_not_comment (isLine : IsLine '\n' line)
    (nonempty : line ≠ []) (notComment : isComment line = false) :
    lineCommands line =
      cutCommand (line.take (maxScvCmdLen - 1)) ::
        lineCommands (line.drop (maxScvCmdLen - 1)) := by
  have firstNotComment :
      ¬isComment (line.take (maxScvCmdLen - 1)) = true := by
    rw [isComment, List.head?_take, if_neg (by decide), ← isComment,
      notComment]
    exact Bool.false_ne_true
  rw [lineCommands, poolPieces,
    pieces_of_isLine (by decide) isLine nonempty, pieceCommands,
    List.filter_cons_of_pos (by simpa using firstNotComment), List.map_cons]
  rfl

theorem length_ownCommands_le (isLine : IsLine '\n' line)
    (nonempty : line ≠ []) :
    (ownCommands line).length ≤ (lineCommands line).length := by
  rw [ownCommands]
  cases comment : isComment line with
  | true => exact Nat.zero_le _
  | false =>
      rw [lineCommands_of_not_comment isLine nonempty comment]
      simp

theorem lineCommands_eq_nil_iff (isLine : IsLine '\n' line) :
    lineCommands line = [] ↔
      ∀ count, (maxScvCmdLen - 1) * count < line.length →
        (line)[(maxScvCmdLen - 1) * count]? = some '#' := by
  rw [← forall_head_pieces_iff (by decide) isLine, lineCommands,
    pieceCommands, List.map_eq_nil_iff, List.filter_eq_nil_iff]
  simp [isComment, poolPieces]

theorem takeWhile_eq_self {char : Char} (notIn : char ∉ line) :
    line.takeWhile (· ≠ char) = line := by
  refine List.takeWhile_eq_self_iff.mpr fun other member => ?_
  rw [decide_eq_true_eq]
  rintro rfl
  exact notIn member

/-- A line is its text, maybe with a newline behind it. -/
theorem eq_lineText (isLine : IsLine '\n' line) :
    line = lineText line ∨ line = lineText line ++ ['\n'] := by
  rcases isLine_iff.mp isLine with noNewline | ⟨text, noNewline, rfl⟩
  · exact .inl (takeWhile_eq_self noNewline).symm
  · refine .inr ?_
    rw [lineText, List.takeWhile_append_of_pos, List.takeWhile_cons_of_neg,
      List.append_nil]
    · simp
    · intro char member
      rw [decide_eq_true_eq]
      rintro rfl
      exact noNewline member

/-- Nothing is cut off a line's text but what is behind a zero. -/
theorem cutCommand_eq_lineText_iff (isLine : IsLine '\n' line) :
    cutCommand line = lineText line ↔ '\x00' ∉ line := by
  constructor
  · intro same isZero
    have inText : '\x00' ∈ lineText line := by
      rcases eq_lineText isLine with isText | isText
      · rwa [← isText]
      · rw [isText] at isZero
        refine (List.mem_append.mp isZero).resolve_right fun isNewline => ?_
        exact absurd (List.mem_singleton.mp isNewline) (by decide)
    rw [← same] at inText
    have notZero := List.mem_takeWhile_imp
      ((List.takeWhile_prefix _).subset inText)
    simp at notZero
  · intro noZero
    rw [cutCommand, takeWhile_eq_self noZero, lineText]

theorem length_cutCommand_le (buffer : List Char) :
    (cutCommand buffer).length ≤ buffer.length :=
  ((List.takeWhile_prefix _).trans (List.takeWhile_prefix _)).length_le

/-- A line is treated as a whole exactly if it fits into the buffer. -/
theorem lineCommands_eq_iff (isLine : IsLine '\n' line)
    (nonempty : line ≠ []) :
    lineCommands line = ownCommands line ↔ FitsBuffer line := by
  rw [ownCommands, FitsBuffer]
  cases comment : isComment line with
  | true => exact lineCommands_eq_nil_iff isLine
  | false =>
      rw [if_neg (by decide), if_neg (by decide),
        lineCommands_of_not_comment isLine nonempty comment,
        List.cons_eq_cons]
      constructor
      · rintro ⟨sameText, noMore⟩
        have fits : line.length ≤ maxScvCmdLen - 1 := by
          have textFits := length_cutCommand_le (line.take (maxScvCmdLen - 1))
          rw [sameText, List.length_take] at textFits
          by_contra long
          rcases eq_lineText isLine with isText | isText
          · rw [← isText] at textFits
            omega
          · -- The newline is alone in its piece.
            have length := congrArg List.length isText
            rw [List.length_append, List.length_singleton] at length
            have newlineLeft : line.drop (maxScvCmdLen - 1) = ['\n'] := by
              rw [isText]
              exact List.drop_left' (by omega)
            rw [newlineLeft] at noMore
            have isHash := (lineCommands_eq_nil_iff
              (isLine_iff.mpr (.inr ⟨[], List.not_mem_nil, rfl⟩))).mp
                noMore 0 (by decide)
            exact absurd isHash (by decide)
        rw [List.take_of_length_le fits] at sameText
        exact ⟨fits, (cutCommand_eq_lineText_iff isLine).mp sameText⟩
      · rintro ⟨fits, noZero⟩
        rw [List.take_of_length_le fits, List.drop_of_length_le fits]
        refine ⟨(cutCommand_eq_lineText_iff isLine).mpr noZero, ?_⟩
        rw [lineCommands, poolPieces, pieces_nil]
        rfl

/-! ## The whole pool -/

theorem pieceCommands_eq_iff (pool : List Char) :
    pieceCommands (poolPieces pool) = poolCommands pool ↔
      ∀ line ∈ lines '\n' pool, FitsBuffer line := by
  rw [pieceCommands_poolPieces, poolCommands_eq, flatMap_eq_flatMap_iff]
  · refine forall₂_congr fun line member => ?_
    obtain ⟨isLine, nonempty⟩ := isLine_of_mem_lines member
    exact lineCommands_eq_iff isLine nonempty
  · intro line member
    obtain ⟨isLine, nonempty⟩ := isLine_of_mem_lines member
    exact length_ownCommands_le isLine nonempty

/-- Libraries for which a command is one word -/
def PoolLibs.oneWord : PoolLibs :=
  ⟨fun cmd => [String.ofList cmd], fun _ => 0, fun _ => 0, fun _ => none⟩

/-- An entry of a table that is all zero -/
def CoroutineCtx.zero : CoroutineCtx :=
  ⟨none, 0, 0, 0, [], none, false, none, false⟩

/-- Commands that give the same entries are the same, if their words are. -/
theorem eq_of_placeCommands {first second : List (List Char)}
    {scavTable : Int → CoroutineCtx}
    (sameLength : first.length = second.length)
    (same :
      placeCommands .oneWord scavTable 0 first =
        placeCommands .oneWord scavTable 0 second) :
    first = second := by
  refine List.ext_getElem sameLength fun idx isFirst isSecond => ?_
  have sameArgv := congrArg CoroutineCtx.argv (congrFun same idx)
  have isIdx : ((idx : Int) - (0 : Nat)).toNat = idx := by omega
  simp only [placeCommands, isIdx, List.getElem?_eq_getElem isFirst,
    List.getElem?_eq_getElem isSecond, PoolLibs.commandEntry,
    PoolLibs.oneWord] at sameArgv
  rw [if_neg (by omega), if_neg (by omega)] at sameArgv
  exact String.ofList_injective (List.singleton_inj.mp sameArgv)

/-- The pool is loaded line by line exactly if each line fits into the buffer
and all commands fit into the table. -/
theorem loadsLines_iff (pool : List Char) :
    LoadsLines pool ↔
      (poolCommands pool).length ≤ maxActiveCrtNum ∧
        ∀ line ∈ lines '\n' pool, FitsBuffer line := by
  rw [← pieceCommands_eq_iff]
  constructor
  · intro loads
    have hasRoom : (poolCommands pool).length ≤ maxActiveCrtNum := by
      by_contra tooMany
      exact initScavTable_ne_exited .oneWord (fun _ => .zero) pool _
        (loads.tooMany (by omega) .oneWord fun _ => .zero)
    have loaded := loads.within hasRoom
    have piecesFit :
        (pieceCommands (poolPieces pool)).length ≤ maxActiveCrtNum := by
      by_contra noRoom
      have isOutside := loaded .oneWord fun _ => .zero
      rw [initScavTable_eq, if_neg noRoom] at isOutside
      cases isOutside
    have sameLoad := loaded .oneWord fun _ => .zero
    rw [initScavTable_eq, if_pos piecesFit] at sameLoad
    injection sameLoad with sameTable sameCounts
    exact ⟨hasRoom, eq_of_placeCommands sameCounts sameTable⟩
  · rintro ⟨hasRoom, same⟩
    constructor
    · intro _ libs scavTable
      rw [initScavTable_eq, same, if_pos hasRoom]
    · intro tooMany
      omega

/-- A comment with one character more than the buffer has room for -/
def longComment : List Char :=
  '#' :: List.replicate 254 'x' ++ ['\n']

/-- One command more than there are entries -/
def manyCommands : List Char :=
  (List.replicate 513 ['a', '\n']).flatten

/-- The newline of a comment becomes an entry, and the entry behind the table
is written before the runtime can exit. -/
theorem not_loadsLines :
    ¬LoadsLines longComment ∧ ¬LoadsLines manyCommands := by
  constructor
  · intro loads
    have noCommands : poolCommands longComment = [] := by decide +kernel
    have onePiece : pieceCommands (poolPieces longComment) = [[]] := by
      have isLine : IsLine '\n' longComment := by
        unfold IsLine
        decide +kernel
      have left : longComment.drop (maxScvCmdLen - 1) = ['\n'] := by
        decide +kernel
      have alone : IsLine '\n' ['\n'] := by
        unfold IsLine
        decide
      rw [poolPieces, pieces_of_isLine (by decide) isLine (by decide), left,
        pieces_of_isLine (by decide) alone (by decide)]
      have noMore : ['\n'].drop (maxScvCmdLen - 1) = [] := by decide
      rw [noMore, pieces_nil]
      decide +kernel
    have loaded := loads.within (by rw [noCommands]; decide) .oneWord
      fun _ => .zero
    rw [initScavTable_eq, onePiece, noCommands, if_pos (by decide)] at loaded
    injection loaded with _ sameCounts
    cases sameCounts
  · intro loads
    have tooMany : maxActiveCrtNum < (poolCommands manyCommands).length := by
      decide +kernel
    exact initScavTable_ne_exited .oneWord (fun _ => .zero) manyCommands _
      (loads.tooMany tooMany .oneWord fun _ => .zero)

end Msh
