import TinyRedis.Lib.Files
import TinyRedis.Rdb.Model

/-!
# Snapshots that are written at the same time

`SAVE` writes a snapshot in the server process, `BGSAVE` in a child, both to the same temporary
file, which is then renamed. The server does nothing else during `SAVE`, but children go on, and
nothing keeps two of them apart. The steps of all processes are interleaved by a list of events.

The file under `path` is a snapshot as long as no process opens the temporary file while another one
has it open.
-/

namespace TinyRedis.Rdb

open Lib List

/-! ## Processes -/

/-- The two files. -/
inductive FileName where
  /-- `path`. -/
  | dump
  /-- `path + ".tmp"`. -/
  | tmp
  deriving DecidableEq

/-- The files under these names. -/
abbrev Disk := Files FileName UInt8

/-- How far a process is with its snapshot. -/
inductive Stage where
  /-- `Serialize` has returned. -/
  | starting
  /-- The temporary file is open, at a position. -/
  | writing (inode pos : ℕ)
  /-- The snapshot is done, or was given up. -/
  | finished
  deriving DecidableEq

/-- A process that writes a snapshot: the rest of `SaveToFile`, or of the child in `BgSaveFork`. -/
structure Saver where
  data : Bytes
  /-- Whether this is the server process itself. -/
  inServer : Bool
  stage : Stage

/-- A step of such a process. -/
inductive Act where
  /-- The temporary file is opened. -/
  | openTmp
  /-- The next bytes are written, at most `n`. -/
  | write (n : ℕ)
  /-- The temporary file is renamed, once all is written. -/
  | rename
  /-- A call fails, and the process gives up. -/
  | fail

/-- A step of a process; nothing happens if it is not there yet. -/
def Saver.act (v : Saver) (disk : Disk) (a : Act) : Disk × Saver :=
  match a, v.stage with
  | .openTmp, .starting =>
    let (i, disk) := disk.openTrunc .tmp
    (disk, { v with stage := .writing i 0 })
  | .write n, .writing i pos =>
    let b := (v.data.drop pos).take n
    (disk.writeAt 0 i pos b, { v with stage := .writing i (pos + b.length) })
  | .rename, .writing _ pos =>
    if pos = v.data.length then
      -- If there is no temporary file any more, `rename` fails.
      ((disk.rename .tmp .dump).getD disk, { v with stage := .finished })
    else (disk, v)
  | .fail, _ => (disk, { v with stage := .finished })
  | _, _ => (disk, v)

/-- The server, the files, and all processes that were started to write a snapshot. -/
structure System where
  db : Database
  disk : Disk
  savers : List Saver

/-- What may happen next. -/
inductive Event where
  /-- The server runs other commands. -/
  | serve (db : Database)
  /-- `SAVE`. -/
  | save
  /-- `BGSAVE`, if the child could be started. -/
  | bgsave
  /-- A step of a process. -/
  | act (k : ℕ) (a : Act)

/-- The server process is in `SaveToFile`. -/
def System.busy (s : System) : Bool :=
  s.savers.any fun v => v.inServer && decide (v.stage ≠ .finished)

/-- A process is started. -/
def System.start (s : System) (inServer : Bool) : System :=
  { s with savers := s.savers ++ [⟨serialize s.db, inServer, .starting⟩] }

/-- One event of the system. -/
def System.step (s : System) : Event → System
  | .serve db => if s.busy then s else { s with db := db }
  | .save => if s.busy then s else s.start true
  | .bgsave => if s.busy then s else s.start false
  | .act k a =>
    match s.savers[k]? with
    | none => s
    | some v =>
      let (disk, v) := v.act s.disk a
      { s with disk := disk, savers := s.savers.set k v }

/-- Some events, one after another. -/
def System.run (s : System) (events : List Event) : System := events.foldl System.step s

/-- The snapshot that is taken in an event. -/
def System.snapshot (s : System) : Event → List Bytes
  | .save => if s.busy then [] else [serialize s.db]
  | .bgsave => if s.busy then [] else [serialize s.db]
  | _ => []

/-- The snapshots that are taken in a run. -/
def System.snapshots (s : System) : List Event → List Bytes
  | [] => []
  | e :: events => s.snapshot e ++ (s.step e).snapshots events

/-- No process was started. -/
structure System.Initial (s : System) : Prop where
  savers : s.savers = []
  disk : s.disk.Separate

/-- The process has the temporary file open. -/
def Saver.isWriting (v : Saver) : Bool :=
  match v.stage with
  | .writing _ _ => true
  | _ => false

/-- No process opens the temporary file while another one has it open. -/
def System.apart (s : System) : Event → Bool
  | .act _ .openTmp => s.savers.all fun v => !v.isWriting
  | _ => true

/-- Each event of a run finds the processes apart. -/
def System.apartAll (s : System) : List Event → Bool
  | [] => true
  | e :: events => s.apart e && (s.step e).apartAll events

/-! ## The dump -/

variable {s : System} {D D' : List Bytes} {v : Saver} {disk : Disk} {k : ℕ}

/-- The temporary file is what the process has written so far. -/
def Saver.Writes (v : Saver) (disk : Disk) : Prop :=
  ∀ i pos, v.stage = .writing i pos → disk.inode .tmp = some i ∧
    disk.content i = v.data.take pos ∧ pos ≤ v.data.length

/-- What holds in every state, if `D` are the snapshots that were taken. -/
structure Sound (D : List Bytes) (s : System) : Prop where
  disk : s.disk.Separate
  data : ∀ v ∈ s.savers, v.data ∈ D
  dump : ∀ b, s.disk.read .dump = some b → b ∈ D
  writes : ∀ v ∈ s.savers, v.Writes s.disk
  alone : ∀ (k k' : ℕ) (v v' : Saver), s.savers[k]? = some v → s.savers[k']? = some v' →
    v.isWriting = true → v'.isWriting = true → k = k'

/-- A saver that is not writing says nothing about the disk. -/
theorem Saver.writes_of_not_isWriting (hv : v.isWriting = false) (disk : Disk) : v.Writes disk := by
  intro i pos hstage
  unfold Saver.isWriting at hv
  rw [hstage] at hv
  cases hv

/-- A saver in the writing stage is writing. -/
theorem Saver.isWriting_of_stage {i pos : ℕ} (hv : v.stage = .writing i pos) :
    v.isWriting = true := by
  unfold Saver.isWriting
  rw [hv]

/-- The processes after one of them took a step. -/
theorem getElem?_set_cases {l : List Saver} {v' u : Saver} {j : ℕ}
    (hu : (l.set k v')[j]? = some u) : (j = k ∧ u = v') ∨ (j ≠ k ∧ l[j]? = some u) := by
  by_cases hj : j = k
  · subst hj
    rw [getElem?_set_self'] at hu
    obtain ⟨_, -, rfl⟩ := Option.map_eq_some_iff.1 hu
    exact .inl ⟨rfl, rfl⟩
  · rw [getElem?_set_ne (Ne.symm hj)] at hu
    exact .inr ⟨hj, hu⟩

/-- A process takes a step, and the others have the temporary file open no more than is right. -/
theorem Sound.set (h : Sound D s) (hk : s.savers[k]? = some v) {v' : Saver}
    (hdata : v'.data = v.data) (hdisk : disk.Separate)
    (hdump : ∀ b, disk.read .dump = some b → b ∈ D) (hv' : v'.Writes disk)
    (hothers : ∀ (j : ℕ) u, j ≠ k → s.savers[j]? = some u →
      u.Writes disk ∧ (v'.isWriting = true → u.isWriting = false)) :
    Sound D { s with disk := disk, savers := s.savers.set k v' } := by
  refine ⟨hdisk, fun u hu => ?_, hdump, fun u hu => ?_, fun j j' u u' hu hu' hw hw' => ?_⟩
  · obtain ⟨j, hj⟩ := getElem?_of_mem hu
    rcases getElem?_set_cases hj with ⟨-, rfl⟩ | ⟨-, hold⟩
    · rw [hdata]
      exact h.data v (mem_of_getElem? hk)
    · exact h.data u (mem_of_getElem? hold)
  · obtain ⟨j, hj⟩ := getElem?_of_mem hu
    rcases getElem?_set_cases hj with ⟨-, rfl⟩ | ⟨hne, hold⟩
    · exact hv'
    · exact (hothers j u hne hold).1
  · rcases getElem?_set_cases hu with ⟨hj, rfl⟩ | ⟨hne, hold⟩
    · rcases getElem?_set_cases hu' with ⟨hj', -⟩ | ⟨hne', hold'⟩
      · exact hj.trans hj'.symm
      · rw [(hothers j' u' hne' hold').2 hw] at hw'
        cases hw'
    · rcases getElem?_set_cases hu' with ⟨hj', rfl⟩ | ⟨hne', hold'⟩
      · rw [(hothers j u hne hold).2 hw'] at hw
        cases hw
      · exact h.alone j j' u u' hold hold' hw hw'

/-- The others do not have the temporary file open if one process has. -/
theorem Sound.others (h : Sound D s) (hk : s.savers[k]? = some v) (hv : v.isWriting = true) :
    ∀ (j : ℕ) u, j ≠ k → s.savers[j]? = some u → u.isWriting = false := by
  intro j u hj hu
  cases hw : u.isWriting with
  | false => rfl
  | true => exact absurd (h.alone j k u v hu hk hw hv) hj

/-- Every step of a process leaves a dump that is a snapshot, if it does not open the temporary file
while another one has it open. -/
theorem Sound.act (h : Sound D s) (hk : s.savers[k]? = some v) (a : Act)
    (hapart : s.apart (.act k a) = true) :
    Sound D { s with disk := (v.act s.disk a).1, savers := s.savers.set k (v.act s.disk a).2 } := by
  have hmem := mem_of_getElem? hk
  have hsame : Sound D { s with savers := s.savers.set k v } :=
    h.set hk rfl h.disk h.dump (h.writes v hmem) fun j u hj hu =>
      ⟨h.writes u (mem_of_getElem? hu), fun hv => h.others hk hv j u hj hu⟩
  cases a with
  | fail =>
    refine h.set hk rfl h.disk h.dump (Saver.writes_of_not_isWriting rfl _) fun j u _ hu => ?_
    exact ⟨h.writes u (mem_of_getElem? hu), nofun⟩
  | openTmp =>
    unfold Saver.act
    cases hstage : v.stage with
    | starting =>
      have hnone : ∀ (j : ℕ) u, j ≠ k → s.savers[j]? = some u → u.isWriting = false := by
        intro j u _ hu
        have hall := all_eq_true.1 hapart u (mem_of_getElem? hu)
        rwa [Bool.not_eq_true'] at hall
      obtain ⟨hinode, hempty⟩ := s.disk.openTrunc_spec .tmp
      refine h.set hk rfl (h.disk.openTrunc .tmp) (fun b hb => ?_) (fun i pos hi => ?_)
        fun j u hj hu => ⟨Saver.writes_of_not_isWriting (hnone j u hj hu) _,
          fun _ => hnone j u hj hu⟩
      · rw [Files.read_openTrunc h.disk (by decide)] at hb
        exact h.dump b hb
      · cases hi
        exact ⟨hinode, hempty, Nat.zero_le _⟩
    | writing i pos => exact hsame
    | finished => exact hsame
  | write n =>
    unfold Saver.act
    cases hstage : v.stage with
    | writing i pos =>
      obtain ⟨hinode, hcontent, hpos⟩ := h.writes v hmem i pos hstage
      have hnone := h.others hk (Saver.isWriting_of_stage hstage)
      refine h.set hk rfl (h.disk.writeAt 0 i pos _) (fun b hb => ?_) (fun i' pos' hi => ?_)
        fun j u hj hu => ⟨Saver.writes_of_not_isWriting (hnone j u hj hu) _,
          fun _ => hnone j u hj hu⟩
      · rw [Files.read_writeAt h.disk hinode (by decide)] at hb
        exact h.dump b hb
      · cases hi
        refine ⟨hinode, ?_, ?_⟩
        · rw [Files.content_writeAt, hcontent]
          exact overwrite_take 0 v.data hpos n
        · rw [length_take, length_drop]
          dsimp only
          omega
    | starting => exact hsame
    | finished => exact hsame
  | rename =>
    unfold Saver.act
    cases hstage : v.stage with
    | writing i pos =>
      obtain ⟨hinode, hcontent, hpos⟩ := h.writes v hmem i pos hstage
      have hnone := h.others hk (Saver.isWriting_of_stage hstage)
      dsimp only
      split_ifs with hend
      · have hrename := Files.rename_eq hinode FileName.dump
        rw [hrename, Option.getD_some]
        refine h.set hk rfl (h.disk.rename hrename) (fun b hb => ?_)
          (Saver.writes_of_not_isWriting rfl _)
          fun j u hj hu => ⟨Saver.writes_of_not_isWriting (hnone j u hj hu) _, nofun⟩
        rw [Files.read_rename hinode (by decide) hrename, hcontent, hend, take_length] at hb
        cases hb
        exact h.data v hmem
      · exact hsame
    | starting => exact hsame
    | finished => exact hsame

/-- A process is started. -/
theorem Sound.start (h : Sound D s) (inServer : Bool) :
    Sound (D ++ [serialize s.db]) (s.start inServer) := by
  -- What has the temporary file open was there before.
  have hold : ∀ (j : ℕ) u, (s.savers ++ [⟨serialize s.db, inServer, .starting⟩])[j]? = some u →
      u.isWriting = true → s.savers[j]? = some u := by
    intro j u hu hw
    rcases Nat.lt_or_ge j s.savers.length with hj | hj
    · rwa [getElem?_append_left hj] at hu
    · rw [getElem?_append_right hj] at hu
      obtain rfl := mem_singleton.1 (mem_of_getElem? hu)
      cases hw
  refine ⟨h.disk, fun u hu => ?_, fun b hb => mem_append_left _ (h.dump b hb), fun u hu => ?_,
    fun j j' u u' hu hu' hw hw' => ?_⟩
  · rcases mem_append.1 hu with hu | hu
    · exact mem_append_left _ (h.data u hu)
    · rw [mem_singleton.1 hu]
      exact mem_append_right _ (mem_singleton_self _)
  · rcases mem_append.1 hu with hu | hu
    · exact h.writes u hu
    · rw [mem_singleton.1 hu]
      exact Saver.writes_of_not_isWriting rfl _
  · exact h.alone j j' u u' (hold j u hu hw) (hold j' u' hu' hw') hw hw'

/-- An event that keeps the savers apart keeps the system sound. -/
theorem Sound.step (h : Sound D s) (e : Event) (hapart : s.apart e = true) :
    Sound (D ++ s.snapshot e) (s.step e) := by
  have hsame : Sound (D ++ []) s := by
    rw [append_nil]
    exact h
  have hstart : ∀ inServer, Sound (D ++ if s.busy then [] else [serialize s.db])
      (if s.busy then s else s.start inServer) := by
    intro inServer
    split_ifs
    · exact hsame
    · exact h.start inServer
  cases e with
  | serve db =>
    show Sound (D ++ []) (if s.busy then s else { s with db := db })
    split_ifs
    · exact hsame
    · exact ⟨hsame.disk, hsame.data, hsame.dump, hsame.writes, hsame.alone⟩
  | save => exact hstart true
  | bgsave => exact hstart false
  | act k a =>
    unfold System.step System.snapshot
    dsimp only
    rw [append_nil]
    cases hk : s.savers[k]? with
    | none => exact h
    | some v => exact h.act hk a hapart

/-- A run that keeps the savers apart keeps the system sound. -/
theorem Sound.run {events : List Event} (h : Sound D s) (hapart : s.apartAll events = true) :
    Sound (D ++ s.snapshots events) (s.run events) := by
  induction events generalizing s D with
  | nil =>
    rw [System.snapshots, append_nil]
    exact h
  | cons e events ih =>
    rw [System.apartAll, Bool.and_eq_true] at hapart
    have hnext := ih (h.step e hapart.1) hapart.2
    rwa [append_assoc] at hnext

/-- In every run in which no process opens the temporary file while another one has it open, the
dump is one of the snapshots that were taken, or still the one that was there. -/
theorem dump_is_snapshot {events : List Event} {b : Bytes} (hs : s.Initial)
    (hapart : s.apartAll events = true) (hb : (s.run events).disk.read .dump = some b) :
    s.disk.read .dump = some b ∨ b ∈ s.snapshots events := by
  have hstart : Sound (s.disk.read .dump).toList s := by
    have hnone : ∀ v, v ∉ s.savers := by
      rw [hs.savers]
      exact fun v => not_mem_nil
    have hget : ∀ (k : ℕ) v, s.savers[k]? ≠ some v := fun k v hk =>
      hnone v (mem_of_getElem? hk)
    exact ⟨hs.disk, fun v hv => absurd hv (hnone v), fun b hb => Option.mem_toList.2 hb,
      fun v hv => absurd hv (hnone v), fun k k' v v' hk => absurd hk (hget k v)⟩
  have hrun := (hstart.run hapart).dump b hb
  rw [mem_append, Option.mem_toList] at hrun
  exact hrun

/-- A new server, and no files. -/
def blank : System := ⟨.empty, ⟨fun _ => none, fun _ => [], 0⟩, []⟩

/-- The blank system is an initial one. -/
theorem blank_initial : blank.Initial := ⟨rfl, ⟨nofun, nofun⟩⟩

/-- A child writes in two pieces, and `SAVE` comes after it. -/
def oneByOne : List Event :=
  [.bgsave, .act 0 .openTmp, .act 0 (.write 4), .act 0 (.write 100), .act 0 .rename, .save,
    .act 1 .openTmp, .act 1 (.write 3)]

/-- Two saves one after the other end with a dump that is a snapshot. -/
theorem dump_is_snapshot_oneByOne : ∃ b, (blank.run oneByOne).disk.read .dump = some b ∧
    b ∈ blank.snapshots oneByOne := by
  obtain ⟨b, hb⟩ := Option.isSome_iff_exists.1
    (by decide +kernel : ((blank.run oneByOne).disk.read .dump).isSome = true)
  have hb' := dump_is_snapshot blank_initial (by decide +kernel) hb
  exact ⟨b, hb, hb'.resolve_left nofun⟩

/-- A second child opens the temporary file before the first one renames it. -/
def crossed : List Event :=
  [.bgsave, .bgsave, .act 0 .openTmp, .act 0 (.write 100), .act 1 .openTmp, .act 0 .rename]

/-- Then the dump is empty. -/
theorem crossed_dump : (blank.run crossed).disk.read .dump = some [] ∧
    blank.disk.read .dump = none ∧ [] ∉ blank.snapshots crossed :=
  ⟨by decide +kernel, rfl, by decide +kernel⟩

end TinyRedis.Rdb
