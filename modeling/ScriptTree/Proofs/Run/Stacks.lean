import Mathlib.Data.List.Induction
import ScriptTree.Proofs.Load.Upkeep
import ScriptTree.Proofs.Run.Stays

/-!
# Frames and files under way over a session

In a session frames are pushed and dropped and files are entered and left, in any order
(`Session.Move`). Dropping a frame takes away those above it too; leaving a file takes away that
file and no other. So both stacks are what the moves until then say. A frame stands on the frames
that were there when it was pushed until it or one of them is dropped, and the files under way are
those of the guards that have not been dropped, each once (`World.stacks_after`).
-/

set_option autoImplicit false

namespace ScriptTree

/-! ## Dropping a frame -/

namespace Scope

variable {frames below : List NodeId} {frame : NodeId}

/-- What is left of the frames is what they stand on. -/
theorem below_suffix (frames : List NodeId) (frame : NodeId) :
    Scope.below frames frame <:+ frames := by
  rw [Scope.below]
  split
  · exact (List.drop_suffix 1 _).trans (List.dropWhile_suffix _)
  · exact List.suffix_rfl

theorem not_mem_below (h : frames.Nodup) : frame ∉ Scope.below frames frame := by
  induction frames with
  | nil => simp [Scope.below]
  | cons f frames ih =>
      obtain ⟨hf, hrest⟩ := List.nodup_cons.mp h
      by_cases hne : f = frame
      · rw [hne, below_cons_self]
        rwa [hne] at hf
      · by_cases hmem : frame ∈ frames
        · rw [below_cons_of_mem hne hmem]
          exact ih hrest
        · have hnot : frame ∉ f :: frames := by simp [hmem, Ne.symm hne]
          rwa [below_of_not_mem hnot]

/-- Frames stay when neither they nor one that they stand on is dropped. -/
theorem suffix_below (h : below <:+ frames) (hframe : frame ∉ below) :
    below <:+ Scope.below frames frame := by
  induction frames with
  | nil => rwa [below_of_not_mem (by simp)]
  | cons f frames ih =>
      rcases List.suffix_cons_iff.mp h with heq | hsuffix
      · rwa [below_of_not_mem (by rwa [← heq])]
      · by_cases hne : f = frame
        · rwa [hne, below_cons_self]
        · by_cases hmem : frame ∈ frames
          · rw [below_cons_of_mem hne hmem]
            exact ih hsuffix
          · rwa [below_of_not_mem (by simp [hmem, Ne.symm hne])]

end Scope

/-- A change that leaves the frames and the files under way as they are and takes no node away. -/
structure World.SameStacks (w w' : World) : Prop where
  frames : w'.frames = w.frames
  loading : w'.loading = w.loading
  size : w.cells.size ≤ w'.cells.size

/-- Every operation of nodes leaves both stacks as they are. -/
theorem World.Continues.sameStacks {w w' : World} (h : w.Continues w') : w.SameStacks w' :=
  ⟨h.frames, h.loading, h.size⟩

theorem World.size_pushFrame (w : World) (arguments : List (String × Value)) :
    (w.pushFrame arguments).2.cells.size = w.cells.size + 1 := by
  have hseeded : ∀ (frame : NodeId) (b : World),
      (arguments.foldl (fun w p => w.set frame p.1 p.2) b).cells.size = b.cells.size := by
    intro frame
    induction arguments with
    | nil => exact fun _ => rfl
    | cons p rest ih => exact fun b => (ih (b.set frame p.1 p.2)).trans (b.size_modifyCell frame _)
  exact (hseeded ⟨w.cells.size⟩ (w.create false).2).trans (Array.size_push _)

/-! ## Sessions -/

/-- What a session holds for a file that it has entered: the number of the move, and the file. -/
structure Session.Guard where
  move : Nat
  file : String
  deriving DecidableEq, Repr

/-- A world with the number of moves so far and the guards that have not been dropped, the last one
first. -/
structure Session where
  world : World
  moves : Nat
  guards : List Session.Guard

namespace Session

/-- One thing that happens in a session. -/
inductive Move where
  /-- A frame that binds arguments is pushed. -/
  | push (arguments : List (String × Value))
  /-- The guard of a frame is dropped. -/
  | drop (frame : NodeId)
  /-- A file is entered. -/
  | enter (path : String)
  /-- The guard of the file that was entered with a move is dropped. -/
  | leave (move : Nat)
  /-- Whatever else happens, in the nodes or in the files. -/
  | other (change : World → World) (same : ∀ w : World, w.SameStacks (change w))

/-- A session at its start. -/
def start (w : World) : Session := ⟨w, 0, []⟩

/-- The session after a move that leads to a world and to guards. -/
def next (s : Session) (w : World) (guards : List Guard) : Session := ⟨w, s.moves + 1, guards⟩

/-- One move. A guard that is not held any more cannot be dropped. -/
def step (s : Session) : Move → Session
  | .push arguments => s.next (s.world.pushFrame arguments).2 s.guards
  | .drop frame => s.next (s.world.dropFrame frame) s.guards
  | .enter path =>
      match Action.locateFile path s.world with
      | (.done names, w) =>
          s.next (w.enterFile (Files.absolute names)) (⟨s.moves, Files.absolute names⟩ :: s.guards)
      | (_, w) => s.next w s.guards
  | .leave move =>
      match s.guards.find? (·.move == move) with
      | some guard =>
          s.next (s.world.leaveFile guard.file) (s.guards.filter (·.move != move))
      | none => s.next s.world s.guards
  | .other change _ => s.next (change s.world) s.guards

/-- Moves one after the other. -/
def run (s : Session) (moves : List Move) : Session := moves.foldl step s

/-- The frames that moves push, in their order. -/
def pushes (s : Session) : List Move → List NodeId
  | [] => []
  | .push arguments :: moves =>
      (s.world.pushFrame arguments).1 :: pushes (s.step (.push arguments)) moves
  | move :: moves => pushes (s.step move) moves

end Session

/-- The world after moves. -/
def World.after (w : World) (moves : List Session.Move) : World :=
  ((Session.start w).run moves).world

namespace Session

/-- Among the moves is one that pushes the frame on the frames `below`, with the moves `later`
behind it. -/
def Pushes (w : World) (moves : List Move) (frame : NodeId) (below : List NodeId)
    (later : List Move) : Prop :=
  ∃ before arguments, moves = before ++ .push arguments :: later ∧
    ((w.after before).pushFrame arguments).1 = frame ∧ (w.after before).frames = below

/-- Among the moves is one that enters a file and gives the guard, with the moves `later` behind
it. -/
def Enters (w : World) (moves : List Move) (guard : Guard) (later : List Move) : Prop :=
  ∃ before path names, moves = before ++ .enter path :: later ∧ before.length = guard.move ∧
    Files.absolute names = guard.file ∧
    (Action.locateFile path (w.after before)).1 = .done names

/-- The moves give the guard and do not drop it later. -/
def Live (w : World) (moves : List Move) (guard : Guard) : Prop :=
  ∃ later, Enters w moves guard later ∧ .leave guard.move ∉ later

variable {w : World} {s : Session} {moves : List Move} {move : Move} {frame : NodeId}
  {below : List NodeId} {later : List Move} {guard : Guard}

theorem run_append (s : Session) (before later : List Move) :
    s.run (before ++ later) = (s.run before).run later :=
  List.foldl_append

theorem run_concat (s : Session) (moves : List Move) (move : Move) :
    s.run (moves ++ [move]) = (s.run moves).step move := by
  rw [run_append]
  rfl

theorem after_concat (w : World) (moves : List Move) (move : Move) :
    w.after (moves ++ [move]) = (((start w).run moves).step move).world := by
  rw [World.after, run_concat]

/-! ## What a move does -/

/-- Entering a file fails and leaves the world as it is, or gives the names of a file that is not
under way. -/
theorem locateFile_cases (path : String) (w : World) :
    (∃ cause, Action.locateFile path w = (.failed cause, w)) ∨
      ∃ names, w.files.locate path = .ok names ∧ Files.absolute names ∉ w.loading ∧
        Action.locateFile path w = (.done names, w) := by
  rw [Action.locateFile_apply]
  cases w.files.locate path with
  | error fault => exact .inl ⟨_, rfl⟩
  | ok names =>
      by_cases hmem : Files.absolute names ∈ w.loading
      · refine .inl ⟨.circular (Files.absolute names), ?_⟩
        simp [hmem]
      · refine .inr ⟨names, rfl, hmem, ?_⟩
        simp [hmem]

/-- A move pushes a new node, drops a frame and those above it, or keeps the frames. It takes no
node away. -/
theorem frames_step (s : Session) (move : Move) :
    (∃ arguments, move = .push arguments ∧ s.pushes [move] = [⟨s.world.cells.size⟩] ∧
        (s.step move).world.frames = ⟨s.world.cells.size⟩ :: s.world.frames ∧
        s.world.cells.size < (s.step move).world.cells.size) ∨
      (∃ frame, move = .drop frame ∧ s.pushes [move] = [] ∧
        (s.step move).world.frames = Scope.below s.world.frames frame ∧
        s.world.cells.size ≤ (s.step move).world.cells.size) ∨
      ((∀ arguments, move ≠ .push arguments) ∧ (∀ frame, move ≠ .drop frame) ∧
        s.pushes [move] = [] ∧ (s.step move).world.frames = s.world.frames ∧
        s.world.cells.size ≤ (s.step move).world.cells.size) := by
  cases move with
  | push arguments =>
      refine .inl ⟨arguments, rfl, rfl, s.world.frames_pushFrame arguments, ?_⟩
      have hsize := s.world.size_pushFrame arguments
      show s.world.cells.size < (s.world.pushFrame arguments).2.cells.size
      omega
  | drop frame => exact .inr (.inl ⟨frame, rfl, rfl, rfl, Nat.le_refl _⟩)
  | enter path =>
      refine .inr (.inr ⟨nofun, nofun, rfl, ?_⟩)
      rcases locateFile_cases path s.world with ⟨cause, h⟩ | ⟨names, -, -, h⟩
      all_goals
        rw [step, h]
        exact ⟨rfl, Nat.le_refl _⟩
  | leave move =>
      refine .inr (.inr ⟨nofun, nofun, rfl, ?_⟩)
      rw [step]
      split
      all_goals exact ⟨rfl, Nat.le_refl _⟩
  | other change same =>
      exact .inr (.inr ⟨nofun, nofun, rfl, (same s.world).frames, (same s.world).size⟩)

/-! ## Frames over a session -/

theorem pushes_append (s : Session) (before later : List Move) :
    s.pushes (before ++ later) = s.pushes before ++ (s.run before).pushes later := by
  induction before generalizing s with
  | nil => rfl
  | cons move before ih =>
      have hrun : s.run (move :: before) = (s.step move).run before := rfl
      cases move with
      | push arguments =>
          rw [List.cons_append, pushes, pushes, ih, hrun, List.cons_append]
      | _ => exact ih _

theorem Pushes.concat (h : Pushes w moves frame below later) (move : Move) :
    Pushes w (moves ++ [move]) frame below (later ++ [move]) := by
  obtain ⟨before, arguments, rfl, hframe, hbelow⟩ := h
  exact ⟨before, arguments, by simp, hframe, hbelow⟩

/-- Frames stay at the bottom of the stack while none of them is dropped. -/
theorem suffix_frames_run (h : below <:+ s.world.frames)
    (hdrops : ∀ g, .drop g ∈ later → g ∉ below) : below <:+ (s.run later).world.frames := by
  induction later generalizing s with
  | nil => exact h
  | cons move later ih =>
      refine ih ?_ fun g hg => hdrops g (List.mem_cons_of_mem _ hg)
      rcases s.frames_step move with
        ⟨_, -, -, hframes, -⟩ | ⟨g, rfl, -, hframes, -⟩ | ⟨-, -, -, hframes, -⟩
      · rw [hframes]
        exact h.trans (List.suffix_cons _ _)
      · rw [hframes]
        exact Scope.suffix_below h (hdrops g List.mem_cons_self)
      · rwa [hframes]

/-- The frames after moves: of the frames pushed, all distinct, some in the order of their pushes,
each with the frames below it that were there when it was pushed. Neither it nor one of those was
dropped since. -/
structure Stacked (w : World) (moves : List Move) : Prop where
  lt_size : ∀ frame ∈ (start w).pushes moves, frame.index < (w.after moves).cells.size
  distinct : ((start w).pushes moves).Nodup
  ordered : (w.after moves).frames.reverse.Sublist ((start w).pushes moves)
  stands : ∀ above frame below, (w.after moves).frames = above ++ frame :: below →
    ∃ later, Pushes w moves frame below later ∧ ∀ g, .drop g ∈ later → g ∉ frame :: below

theorem Stacked.nodup (h : Stacked w moves) : (w.after moves).frames.Nodup :=
  List.nodup_reverse.mp (h.distinct.sublist h.ordered)

/-- A frame pushed is a new node on top of those before. -/
theorem Stacked.push (h : Stacked w moves) {arguments : List (String × Value)}
    (hpushes : ((start w).run moves).pushes [.push arguments] = [⟨(w.after moves).cells.size⟩])
    (hframes : (w.after (moves ++ [.push arguments])).frames =
      ⟨(w.after moves).cells.size⟩ :: (w.after moves).frames)
    (hsize : (w.after moves).cells.size < (w.after (moves ++ [.push arguments])).cells.size) :
    Stacked w (moves ++ [.push arguments]) where
  lt_size frame hframe := by
    rw [pushes_append, hpushes] at hframe
    rcases List.mem_append.mp hframe with hframe | hframe
    · exact (h.lt_size frame hframe).trans hsize
    · rcases List.mem_singleton.mp hframe with rfl
      exact hsize
  distinct := by
    rw [pushes_append, hpushes]
    refine h.distinct.append (List.nodup_singleton _) fun frame hframe hnew => ?_
    rcases List.mem_singleton.mp hnew with rfl
    exact Nat.lt_irrefl _ (h.lt_size _ hframe)
  ordered := by
    rw [hframes, List.reverse_cons, pushes_append, hpushes]
    exact h.ordered.append (List.Sublist.refl _)
  stands above frame below hsplit := by
    rw [hframes] at hsplit
    cases above with
    | nil =>
        -- The frame is the one that the move pushes.
        obtain ⟨rfl, rfl⟩ := List.cons.inj hsplit
        exact ⟨[], ⟨moves, arguments, rfl, rfl, rfl⟩, nofun⟩
    | cons _ above =>
        obtain ⟨later, hpushed, hdrops⟩ := h.stands above frame below (List.cons.inj hsplit).2
        refine ⟨later ++ [.push arguments], hpushed.concat _, fun g hg => hdrops g ?_⟩
        simpa using hg

/-- A move that pushes no frame leaves frames at the bottom of those before it. -/
theorem Stacked.keep (h : Stacked w moves) (hpushes : ((start w).run moves).pushes [move] = [])
    (hframes : (w.after (moves ++ [move])).frames <:+ (w.after moves).frames)
    (hsize : (w.after moves).cells.size ≤ (w.after (moves ++ [move])).cells.size)
    (hdrop : ∀ g, move = .drop g → g ∉ (w.after (moves ++ [move])).frames) :
    Stacked w (moves ++ [move]) where
  lt_size frame hframe := by
    rw [pushes_append, hpushes, List.append_nil] at hframe
    exact (h.lt_size frame hframe).trans_le hsize
  distinct := by
    rw [pushes_append, hpushes, List.append_nil]
    exact h.distinct
  ordered := by
    rw [pushes_append, hpushes, List.append_nil]
    exact hframes.sublist.reverse.trans h.ordered
  stands above frame below hsplit := by
    -- The frame stood on the same frames before the move, with more above it.
    obtain ⟨dropped, hrest⟩ := hframes
    rw [hsplit, ← List.append_assoc] at hrest
    obtain ⟨later, hpushed, hdrops⟩ := h.stands (dropped ++ above) frame below hrest.symm
    refine ⟨later ++ [move], hpushed.concat move, fun g hg => ?_⟩
    rcases List.mem_append.mp hg with hg | hg
    · exact hdrops g hg
    · have hnot := hdrop g (List.mem_singleton.mp hg).symm
      rw [hsplit] at hnot
      exact fun hmem => hnot (List.mem_append_right _ hmem)

theorem stacked (h : w.frames = []) (moves : List Move) : Stacked w moves := by
  -- From the end: the last move pushes a frame, drops one or keeps the frames.
  induction moves using List.reverseRecOn with
  | nil =>
      have hframes : (w.after []).frames = [] := h
      constructor <;> simp [hframes, pushes]
  | append_singleton moves move ih =>
      have hstep := ((start w).run moves).frames_step move
      rw [← run_concat] at hstep
      rcases hstep with ⟨arguments, rfl, hpushes, hframes, hsize⟩ |
        ⟨frame, rfl, hpushes, hframes, hsize⟩ | ⟨-, hne, hpushes, hframes, hsize⟩
      · exact ih.push hpushes hframes hsize
      · refine ih.keep hpushes ?_ hsize fun g hg => ?_
        · rw [World.after, hframes]
          exact Scope.below_suffix _ _
        · rcases Move.drop.inj hg with rfl
          rw [World.after, hframes]
          exact Scope.not_mem_below ih.nodup
      · refine ih.keep hpushes ?_ hsize fun g hg => absurd hg (hne g)
        rw [World.after, hframes]
        exact List.suffix_rfl

/-- A frame is there when neither it nor a frame that it stands on was dropped since its push. -/
theorem mem_frames_iff (h : w.frames = []) (moves : List Move) (frame : NodeId) :
    frame ∈ (w.after moves).frames ↔
      ∃ below later, Pushes w moves frame below later ∧
        ∀ g, .drop g ∈ later → g ≠ frame ∧ g ∉ below := by
  constructor
  · intro hmem
    obtain ⟨above, below, hsplit⟩ := List.append_of_mem hmem
    obtain ⟨later, hpushed, hdrops⟩ := (stacked h moves).stands above frame below hsplit
    exact ⟨below, later, hpushed, fun g hg => by simpa using hdrops g hg⟩
  · rintro ⟨below, later, ⟨before, arguments, rfl, hframe, hbelow⟩, hdrops⟩
    -- The push leaves the frame on top of `below`, and from then on both stay at the bottom.
    have hpush : (w.after (before ++ [.push arguments])).frames = frame :: below := by
      rw [after_concat, ← hframe, ← hbelow]
      exact (w.after before).frames_pushFrame arguments
    have hsuffix : frame :: below <:+ (w.after (before ++ .push arguments :: later)).frames := by
      rw [List.append_cons, World.after, run_append]
      refine suffix_frames_run ?_ fun g hg => by simpa using hdrops g hg
      exact hpush ▸ List.suffix_rfl
    exact hsuffix.subset List.mem_cons_self

/-! ## Files under way over a session -/

@[simp] theorem moves_step (s : Session) (move : Move) : (s.step move).moves = s.moves + 1 := by
  cases move with
  | enter path =>
      rw [step]
      split <;> rfl
  | leave move =>
      rw [step]
      split <;> rfl
  | _ => rfl

theorem moves_run (w : World) (moves : List Move) :
    ((start w).run moves).moves = moves.length := by
  induction moves using List.reverseRecOn with
  | nil => rfl
  | append_singleton moves move ih => simp [run_concat, ih]

/-- A move gives a guard of a file that is not under way, drops a guard, or keeps the guards. -/
theorem guards_step (s : Session) (move : Move) :
    (∃ path names, move = .enter path ∧ (Action.locateFile path s.world).1 = .done names ∧
        Files.absolute names ∉ s.world.loading ∧
        (s.step move).guards = ⟨s.moves, Files.absolute names⟩ :: s.guards ∧
        (s.step move).world.loading = Files.absolute names :: s.world.loading) ∨
      (∃ guard ∈ s.guards, move = .leave guard.move ∧
        (s.step move).guards = s.guards.filter (·.move != guard.move) ∧
        (s.step move).world.loading = s.world.loading.erase guard.file) ∨
      ((∀ path names, move = .enter path →
          (Action.locateFile path s.world).1 ≠ .done names) ∧
        (∀ guard ∈ s.guards, move ≠ .leave guard.move) ∧
        (s.step move).guards = s.guards ∧ (s.step move).world.loading = s.world.loading) := by
  cases move with
  | enter path =>
      rcases locateFile_cases path s.world with ⟨cause, h⟩ | ⟨names, -, hnot, h⟩
      · refine .inr (.inr ⟨fun other names heq => ?_, nofun, ?_⟩)
        · rcases Move.enter.inj heq with rfl
          rw [h]
          exact nofun
        · rw [step, h]
          exact ⟨rfl, rfl⟩
      · refine .inl ⟨path, names, rfl, by rw [h], hnot, ?_⟩
        rw [step, h]
        exact ⟨rfl, rfl⟩
  | leave move =>
      cases hfind : s.guards.find? (·.move == move) with
      | some guard =>
          have hmem := List.mem_of_find?_eq_some hfind
          have hmove : guard.move = move := by simpa using List.find?_some hfind
          refine .inr (.inl ⟨guard, hmem, by rw [hmove], ?_⟩)
          rw [step, hfind, hmove]
          exact ⟨rfl, rfl⟩
      | none =>
          refine .inr (.inr ⟨nofun, fun guard hmem heq => ?_, ?_⟩)
          · have hne := List.find?_eq_none.mp hfind guard hmem
            rw [Move.leave.inj heq] at hne
            simp at hne
          · rw [step, hfind]
            exact ⟨rfl, rfl⟩
  | push arguments =>
      refine .inr (.inr ⟨nofun, nofun, rfl, ?_⟩)
      obtain ⟨w, hcontinues, hpush⟩ := s.world.exists_pushFrame_eq arguments
      show (s.world.pushFrame arguments).2.loading = s.world.loading
      rw [hpush]
      exact hcontinues.loading
  | drop frame => exact .inr (.inr ⟨nofun, nofun, rfl, rfl⟩)
  | other change same => exact .inr (.inr ⟨nofun, nofun, rfl, (same s.world).loading⟩)

/-- The last move gives the guard, or the moves before it do and it comes later. -/
theorem enters_concat_iff :
    Enters w (moves ++ [move]) guard later ↔
      (∃ rest, later = rest ++ [move] ∧ Enters w moves guard rest) ∨
        (later = [] ∧ guard.move = moves.length ∧ ∃ path names, move = .enter path ∧
          Files.absolute names = guard.file ∧
          (Action.locateFile path (w.after moves)).1 = .done names) := by
  constructor
  · rintro ⟨before, path, names, hmoves, hlength, hfile, hlocate⟩
    -- The entry is the last move when nothing is behind it.
    rcases List.eq_nil_or_concat' later with rfl | ⟨rest, last, rfl⟩
    · obtain ⟨rfl, hlast⟩ := List.append_inj' hmoves rfl
      exact .inr ⟨rfl, hlength.symm, path, names, (List.cons.inj hlast).1, hfile, hlocate⟩
    · have hsplit : moves ++ [move] = (before ++ .enter path :: rest) ++ [last] := by
        simpa using hmoves
      obtain ⟨rfl, hlast⟩ := List.append_inj' hsplit rfl
      rcases (List.cons.inj hlast).1 with rfl
      exact .inl ⟨rest, rfl, before, path, names, rfl, hlength, hfile, hlocate⟩
  · rintro (⟨rest, rfl, before, path, names, rfl, hrest⟩ | ⟨rfl, hmove, path, names, rfl, hrest⟩)
    · exact ⟨before, path, names, by simp, hrest⟩
    · exact ⟨moves, path, names, rfl, hmove.symm, hrest⟩

theorem live_concat_iff :
    Live w (moves ++ [move]) guard ↔
      (Live w moves guard ∧ move ≠ .leave guard.move) ∨
        (guard.move = moves.length ∧ ∃ path names, move = .enter path ∧
          Files.absolute names = guard.file ∧
          (Action.locateFile path (w.after moves)).1 = .done names) := by
  constructor
  · rintro ⟨later, henters, hleave⟩
    rcases enters_concat_iff.mp henters with ⟨rest, rfl, hrest⟩ | ⟨rfl, hlast⟩
    · refine .inl ⟨⟨rest, hrest, fun hmem => hleave ?_⟩, fun heq => hleave ?_⟩
      · exact List.mem_append_left _ hmem
      · rw [heq]
        exact List.mem_append_right _ List.mem_cons_self
    · exact .inr hlast
  · rintro (⟨⟨rest, hrest, hleave⟩, hne⟩ | hlast)
    · refine ⟨rest ++ [move], enters_concat_iff.mpr (.inl ⟨rest, rfl, hrest⟩), fun hmem => ?_⟩
      rcases List.mem_append.mp hmem with hmem | hmem
      · exact hleave hmem
      · exact hne (List.mem_singleton.mp hmem).symm
    · exact ⟨[], enters_concat_iff.mpr (.inr ⟨rfl, hlast⟩), nofun⟩

/-- The guards after moves: those that are live, the last one first, and their files are the files
under way, each once. -/
structure Guarded (w : World) (moves : List Move) (guards : List Guard) : Prop where
  live : ∀ guard, guard ∈ guards ↔ Live w moves guard
  earlier : ∀ guard ∈ guards, guard.move < moves.length
  ordered : guards.Pairwise fun guard other => other.move < guard.move
  loading : (w.after moves).loading = guards.map Guard.file
  nodup : (w.after moves).loading.Nodup

/-- One move enters one file, and a file is under way once. -/
theorem Guarded.file_eq_iff {guards : List Guard} {other : Guard} (h : Guarded w moves guards)
    (hguard : guard ∈ guards) (hother : other ∈ guards) :
    other.file = guard.file ↔ other.move = guard.move := by
  have hfiles : (guards.map Guard.file).Nodup := h.loading ▸ h.nodup
  have hmoves : (guards.map Guard.move).Nodup :=
    List.pairwise_map.mpr (h.ordered.imp fun hlt => (Nat.ne_of_lt hlt).symm)
  constructor
  · exact fun heq => congrArg Guard.move (List.inj_on_of_nodup_map hfiles hother hguard heq)
  · exact fun heq => congrArg Guard.file (List.inj_on_of_nodup_map hmoves hother hguard heq)

theorem Guarded.enter {guards : List Guard} {path : String} {names : List String}
    (h : Guarded w moves guards)
    (hlocate : (Action.locateFile path (w.after moves)).1 = .done names)
    (hnot : Files.absolute names ∉ (w.after moves).loading)
    (hloading : (w.after (moves ++ [.enter path])).loading =
      Files.absolute names :: (w.after moves).loading) :
    Guarded w (moves ++ [.enter path]) (⟨moves.length, Files.absolute names⟩ :: guards) where
  live guard := by
    rw [live_concat_iff, List.mem_cons, h.live]
    constructor
    · rintro (rfl | hlive)
      · exact .inr ⟨rfl, path, names, rfl, rfl, hlocate⟩
      · exact .inl ⟨hlive, nofun⟩
    · rintro (⟨hlive, -⟩ | ⟨hmove, other, found, hpath, hfile, hfound⟩)
      · exact .inr hlive
      · rcases Move.enter.inj hpath with rfl
        rcases Outcome.done.inj (hlocate.symm.trans hfound) with rfl
        rw [← hmove, hfile]
        exact .inl rfl
  earlier guard hguard := by
    rw [List.length_append, List.length_singleton]
    rcases List.mem_cons.mp hguard with rfl | hguard
    · exact Nat.lt_succ_self _
    · exact Nat.lt_succ_of_lt (h.earlier guard hguard)
  ordered := List.pairwise_cons.mpr ⟨h.earlier, h.ordered⟩
  loading := by rw [hloading, h.loading, List.map_cons]
  nodup := by
    rw [hloading]
    exact List.nodup_cons.mpr ⟨hnot, h.nodup⟩

theorem Guarded.leave {guards : List Guard} (h : Guarded w moves guards) (hguard : guard ∈ guards)
    (hloading : (w.after (moves ++ [.leave guard.move])).loading =
      (w.after moves).loading.erase guard.file) :
    Guarded w (moves ++ [.leave guard.move]) (guards.filter (·.move != guard.move)) where
  live other := by
    rw [live_concat_iff, List.mem_filter, h.live]
    constructor
    · rintro ⟨hlive, hne⟩
      exact .inl ⟨hlive, fun heq => by simp [Move.leave.inj heq] at hne⟩
    · rintro (⟨hlive, hne⟩ | ⟨-, path, names, hpath, -⟩)
      · exact ⟨hlive, by simpa using fun heq => hne (congrArg _ heq.symm)⟩
      · cases hpath
  earlier other hother := by
    rw [List.length_append]
    exact Nat.lt_add_right _ (h.earlier other (List.mem_of_mem_filter hother))
  ordered := h.ordered.filter _
  loading := by
    -- The file erased is under way once, so it is that of the guard and of no other.
    rw [hloading, h.nodup.erase_eq_filter, h.loading, List.filter_map]
    refine congrArg _ (List.filter_congr fun other hother => ?_)
    simp [bne, h.file_eq_iff hguard hother]
  nodup := by
    rw [hloading]
    exact h.nodup.erase _

theorem Guarded.keep {guards : List Guard} (h : Guarded w moves guards)
    (henter : ∀ path names, move = .enter path →
      (Action.locateFile path (w.after moves)).1 ≠ .done names)
    (hleave : ∀ guard ∈ guards, move ≠ .leave guard.move)
    (hloading : (w.after (moves ++ [move])).loading = (w.after moves).loading) :
    Guarded w (moves ++ [move]) guards where
  live guard := by
    rw [live_concat_iff, h.live]
    constructor
    · exact fun hlive => .inl ⟨hlive, hleave guard ((h.live guard).mpr hlive)⟩
    · rintro (⟨hlive, -⟩ | ⟨-, path, names, hpath, -, hlocate⟩)
      · exact hlive
      · exact absurd hlocate (henter path names hpath)
  earlier guard hguard := by
    rw [List.length_append]
    exact Nat.lt_add_right _ (h.earlier guard hguard)
  ordered := h.ordered
  loading := hloading.trans h.loading
  nodup := by
    rw [hloading]
    exact h.nodup

theorem guarded (h : w.loading = []) (moves : List Move) :
    Guarded w moves ((start w).run moves).guards := by
  induction moves using List.reverseRecOn with
  | nil =>
      have hloading : (w.after []).loading = [] := h
      refine ⟨fun guard => ⟨nofun, ?_⟩, nofun, .nil, hloading, by simp [hloading]⟩
      rintro ⟨later, ⟨before, path, names, hmoves, -⟩, -⟩
      simp at hmoves
  | append_singleton moves move ih =>
      have hstep := ((start w).run moves).guards_step move
      rw [← run_concat] at hstep
      -- The guards that the session holds are new, fewer or the same.
      rcases hstep with ⟨path, names, rfl, hlocate, hnot, hguards, hloading⟩ |
        ⟨guard, hguard, rfl, hguards, hloading⟩ | ⟨henter, hleave, hguards, hloading⟩
      all_goals rw [hguards]
      · rw [moves_run]
        exact ih.enter hlocate hnot hloading
      · exact ih.leave hguard hloading
      · exact ih.keep henter hleave hloading

/-- Entering a file that is there fails when it is under way. -/
theorem locateFile_failed_iff {path : String} {names : List String}
    (h : w.files.locate path = .ok names) :
    (∃ cause, (Action.locateFile path w).1 = .failed cause) ↔
      Files.absolute names ∈ w.loading := by
  rw [Action.locateFile_apply, h]
  by_cases hmem : Files.absolute names ∈ w.loading <;> simp [hmem]

theorem after_enter_of_failed {path : String} {cause : Failure}
    (h : (Action.locateFile path (w.after moves)).1 = .failed cause) :
    w.after (moves ++ [.enter path]) = w.after moves := by
  rw [after_concat, step]
  rcases locateFile_cases path (w.after moves) with ⟨_, heq⟩ | ⟨_, -, -, heq⟩
  · rw [World.after] at heq
    rw [heq]
    rfl
  · rw [heq] at h
    cases h

end Session

/-- In every session that starts without frames and files under way, whatever the order of its
moves: the frames are distinct and in the order of their pushes, and one is among them when neither
it nor a frame below it at its push was dropped since; dropping another changes nothing. A file is
under way once, and the files are those of the live guards, the last one first; entering a file
that is there fails exactly when a live guard holds its absolute path, entering one that is missing
always does, and where it fails nothing changes. -/
theorem World.stacks_after (w : World) (hframes : w.frames = []) (hloading : w.loading = [])
    (moves : List Session.Move) :
    ((w.after moves).frames.Nodup ∧ ((Session.start w).pushes moves).Nodup ∧
      (w.after moves).frames.reverse.Sublist ((Session.start w).pushes moves) ∧
      (∀ frame, frame ∈ (w.after moves).frames ↔
        ∃ below later, Session.Pushes w moves frame below later ∧
          ∀ g, .drop g ∈ later → g ≠ frame ∧ g ∉ below) ∧
      ∀ frame, frame ∉ (w.after moves).frames →
        w.after (moves ++ [.drop frame]) = w.after moves) ∧
    (w.after moves).loading.Nodup ∧
      (∃ guards : List Session.Guard,
        (∀ guard, guard ∈ guards ↔ Session.Live w moves guard) ∧
        guards.Pairwise (fun guard other => other.move < guard.move) ∧
        (w.after moves).loading = guards.map Session.Guard.file) ∧
      (∀ path names, (w.after moves).files.locate path = .ok names →
        ((∃ cause, (Action.locateFile path (w.after moves)).1 = .failed cause) ↔
          ∃ guard, Session.Live w moves guard ∧ guard.file = Files.absolute names)) ∧
      (∀ path fault, (w.after moves).files.locate path = .error fault →
        ∃ cause, (Action.locateFile path (w.after moves)).1 = .failed cause) ∧
      ∀ path cause, (Action.locateFile path (w.after moves)).1 = .failed cause →
        w.after (moves ++ [.enter path]) = w.after moves := by
  have hstacked := Session.stacked hframes moves
  have hguarded := Session.guarded hloading moves
  refine ⟨⟨hstacked.nodup, hstacked.distinct, hstacked.ordered,
    Session.mem_frames_iff hframes moves, fun frame hframe => ?_⟩, hguarded.nodup,
    ⟨_, hguarded.live, hguarded.ordered, hguarded.loading⟩, fun path names hnames => ?_,
    fun path fault hmissing => ?_, fun path cause hfailed => Session.after_enter_of_failed hfailed⟩
  · rw [Session.after_concat]
    show { w.after moves with frames := Scope.below (w.after moves).frames frame } = w.after moves
    rw [Scope.below_of_not_mem hframe]
  · rw [Session.locateFile_failed_iff hnames, hguarded.loading, List.mem_map]
    simp only [hguarded.live]
  · rw [Action.locateFile_apply, hmissing]
    exact ⟨_, rfl⟩

/-- A world with two files. -/
def World.paired : World :=
  .initial ⟨false, false, 0⟩
    ⟨.directory [("a.json", .file (some "")), ("b.json", .file (some ""))], []⟩

/-- Of three frames the second is dropped, then the third, which has gone with it; a node is made in
between. Of two files the one entered first is left first. -/
def Session.crosswise : List Session.Move :=
  [.push [], .push [("x", .null)], .enter "a.json", .push [], .drop ⟨2⟩,
    .other (fun w => (w.create true).2) fun w => (w.continues_create true).sameStacks,
    .enter "./b.json", .drop ⟨3⟩, .leave 2]

/-- The first frame stands, and the second file cannot be entered again. -/
theorem World.stacks_after_crosswise :
    (World.paired.after Session.crosswise).frames = [⟨1⟩] ∧
    (∃ below later, Session.Pushes World.paired Session.crosswise ⟨1⟩ below later ∧
      ∀ g, .drop g ∈ later → g ≠ ⟨1⟩ ∧ g ∉ below) ∧
    World.paired.after (Session.crosswise ++ [.drop ⟨3⟩]) =
      World.paired.after Session.crosswise ∧
    (World.paired.after Session.crosswise).loading = ["/b.json"] ∧
    (∃ guard, Session.Live World.paired Session.crosswise guard ∧ guard.file = "/b.json") ∧
    World.paired.after (Session.crosswise ++ [.enter "b.json"]) =
      World.paired.after Session.crosswise := by
  have hframes : (World.paired.after Session.crosswise).frames = [⟨1⟩] := by decide +kernel
  have hloading : (World.paired.after Session.crosswise).loading = ["/b.json"] := by
    decide +kernel
  have hlocate : (World.paired.after Session.crosswise).files.locate "b.json" =
      .ok ["b.json"] := by
    rfl
  obtain ⟨⟨-, -, -, hstands, hgone⟩, -, -, hfails, -, hsame⟩ :=
    World.stacks_after World.paired rfl rfl Session.crosswise
  have hfailed : (Action.locateFile "b.json" (World.paired.after Session.crosswise)).1 =
      .failed (.circular "/b.json") := by
    rfl
  exact ⟨hframes, (hstands ⟨1⟩).mp (by simp [hframes]), hgone ⟨3⟩ (by simp [hframes]), hloading,
    (hfails "b.json" ["b.json"] hlocate).mp ⟨_, hfailed⟩, hsame "b.json" _ hfailed⟩

end ScriptTree
