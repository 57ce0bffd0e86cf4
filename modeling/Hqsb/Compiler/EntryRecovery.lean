/-
Hqsb/Compiler/EntryRecovery.lean

What becomes of a cache entry over a sequence of calls.

Calls of `publish` are killed behind any step, letting go of the lock or not, entries are read,
quarantined and corrupted, and temporary directories are cleaned up.  An entry recovers when no
request raises, and it is there for its key or can be published again, and then counts as committed.
That is so exactly while nothing is in the quarantine, and the entry is served or nothing is there
and the lock is free (`recovers_iff`).  Over a whole sequence of calls it is so exactly while every
call keeps to `Meets` (`recovers_throughout_iff`).
-/
import Hqsb.Compiler.EntryCalls

namespace Hqsb.Compiler

open Lib List OrderedDict

namespace EntryStore

variable (host : Host) (entryId : String)

/-! ### Calls -/

/-- A call for the entry; `publish` comes as far as so many steps, and the lock is released or not
when it is killed before its end. -/
inductive Call where
  | publish (args : PublishArgs) (steps : ℕ) (releases : Bool)
  | read (args : ReadArgs)
  | quarantine
  | cleanupTemp
  | corrupt (name : String) (content : Option Bytes)

/-- `publish`, killed behind so many steps. -/
def publishCall (args : PublishArgs) (steps : ℕ) (releases : Bool) (root : Root) : Root × Writer :=
  let (root, pc) := Writer.run host entryId args steps (root, .start)
  (if releases && pc.inside then root.unlock else root, pc)

namespace Root

variable (root : Root)

/-- `quarantine`; renaming onto a directory with files fails. -/
def quarantine : Root :=
  match root.dir with
  | none => root
  | some files =>
    if replaceable root.quarantined then { root with dir := none, quarantined := some files }
    else root

def cleanupTemp : Root := { root with temps := .empty }

/-- A file that is there is changed or removed. -/
def corrupt (name : String) (content : Option Bytes) : Root :=
  if root.isFile name then { root with dir := root.dir.map (tamper · name content) } else root

def entryState : String :=
  if root.quarantined.isSome then STATE_QUARANTINED
  else if root.dir.isNone then STATE_EVICTED
  else if root.isFile MARKER then STATE_COMMITTED
  else if root.isFile MANIFEST then STATE_VALIDATING
  else STATE_TEMP

def apply : Call → Root
  | .publish args steps releases => (publishCall host entryId args steps releases root).1
  | .read args => (readCall host args root).1
  | .quarantine => root.quarantine
  | .cleanupTemp => root.cleanupTemp
  | .corrupt name content => root.corrupt name content

/-- The states that a sequence of calls goes through. -/
def states : List Call → List Root := List.scanl (fun root call => root.apply host entryId call) root

end Root

/-! ### Recovery -/

def Readable (root : Root) (key : String) : Prop :=
  (∃ payload text, (readCall host (request key) root).2 = .hit payload text) ∧
    root.entryState = STATE_COMMITTED

/-- A call of `publish` that is not killed. -/
def published (args : PublishArgs) (root : Root) : Root × Writer :=
  Writer.run host entryId args 8 (root, .start)

/-- No request raises, and the entry is there or can be published. -/
structure Recovers (root : Root) : Prop where
  never_raises : ∀ args e, (readCall host args root).2 ≠ .raised e
  available : (∃ key, Readable host root key) ∨
    ∀ args : PublishArgs, args.layer ∈ CACHE_LAYERS →
      (published host entryId args root).2 = .done ∧
        Readable host (published host entryId args root).1 args.key

/-- Nothing is in the quarantine, and the entry is served or nothing is in the way of another. -/
def Ready (root : Root) : Prop :=
  root.quarantined = none ∧
    ((∃ key, Serves host root key) ∨ Root.replaceable root.dir = true ∧ root.lock = false)

/-- The calls that leave an entry that recovers: `publish` is not killed between the rename and the
marker, and keeps the lock only when an entry is served, what is there is not quarantined, and a
corruption leaves files that go together. -/
def Meets (root : Root) : Call → Prop
  | .publish args steps releases => (∃ key, Serves host root key) ∨ args.layer ∉ CACHE_LAYERS ∨
      steps = 0 ∨ (steps ≤ 4 ∧ releases = true) ∨ 7 ≤ steps
  | .read _ | .cleanupTemp => True
  | .quarantine => root.dir = none
  | .corrupt name content => root.isFile name = false ∨ ∃ key, Serves host (root.corrupt name content) key

/-- Every call of a sequence is one that the entry recovers from. -/
def AllMeet : Root → List Call → Prop
  | _, [] => True
  | root, call :: calls => Meets host root call ∧ AllMeet (root.apply host entryId call) calls

section

variable {host entryId} {root : Root}

/-! ### What counts is the directory -/

theorem replaceable_isFile (h : Root.replaceable root.dir = true) (name : String) :
    root.isFile name = false := by
  rw [Root.isFile]
  cases hdir : root.dir with
  | none => rfl
  | some files =>
    rw [hdir, Root.replaceable, Option.all_some, List.isEmpty_iff] at h
    rw [Option.any_some, OrderedDict.get?, h]
    rfl

variable {root' : Root} {key : String} {args : PublishArgs} {n : ℕ}

theorem Served.of_dir (hdir : root'.dir = root.dir) {text : Bytes} {d : Attrs} {name : String}
    {payload : Bytes} (h : Served host root text d name payload) :
    Served host root' text d name payload := by
  have hcontent : ∀ name, root'.content name = root.content name := by
    intro name
    rw [Root.content, hdir, Root.content]
  refine ⟨(hcontent _).trans h.manifest, h.load, ?_, h.vouched, h.named, ?_, h.hash⟩
  · rw [isFile_eq, hcontent, ← isFile_eq]
    exact h.marker
  · rw [payloadContent, hcontent]
    exact h.content

theorem Serves.of_dir (hdir : root'.dir = root.dir) (h : Serves host root key) :
    Serves host root' key := by
  obtain ⟨text, d, name, payload, hserved, hinspect⟩ := h
  exact ⟨text, d, name, payload, hserved.of_dir hdir, hinspect⟩

theorem Serves.isFile (h : Serves host root key) :
    root.isFile MANIFEST = true ∧ root.isFile MARKER = true := by
  obtain ⟨text, d, name, payload, hserved, -⟩ := h
  refine ⟨?_, hserved.marker⟩
  rw [isFile_eq, hserved.manifest]
  rfl

theorem Serves.not_replaceable (h : Serves host root key) : Root.replaceable root.dir = false := by
  by_contra hrep
  have := replaceable_isFile (by simpa using hrep) MANIFEST
  rw [h.isFile.1] at this
  cases this

theorem entryState_eq_iff :
    root.entryState = STATE_COMMITTED ↔ root.quarantined = none ∧ root.isFile MARKER = true := by
  rw [Root.entryState]
  cases hquarantined : root.quarantined with
  | some files => simp [STATE_QUARANTINED, STATE_COMMITTED]
  | none =>
    cases hdir : root.dir with
    | none => simp [STATE_EVICTED, STATE_COMMITTED, Root.isFile, hdir]
    | some files =>
      cases hmarker : root.isFile MARKER with
      | true => simp
      | false => cases root.isFile MANIFEST <;> simp [STATE_VALIDATING, STATE_TEMP, STATE_COMMITTED]

/-- **An entry is readable** when it is served and nothing is in the quarantine. -/
theorem readable_iff : Readable host root key ↔ Serves host root key ∧ root.quarantined = none := by
  rw [Readable, entryState_eq_iff]
  constructor
  · rintro ⟨⟨payload, text, hhit⟩, hquarantined, -⟩
    obtain ⟨d, name, hserved, hinspect⟩ := served_of_hit hhit
    exact ⟨⟨text, d, name, payload, hserved, hinspect⟩, hquarantined⟩
  · rintro ⟨hserves, hquarantined⟩
    refine ⟨?_, hquarantined, hserves.isFile.2⟩
    obtain ⟨text, d, name, payload, hserved, hinspect⟩ := hserves
    exact ⟨payload, text, by rw [hserved.hit hinspect]⟩

/-! ### Publishing -/

theorem run_of_present (host : Host) (entryId : String) (args : PublishArgs)
    (hfile : root.isFile MANIFEST = true) (n : ℕ) :
    ∃ b, (Writer.run host entryId args n (root, .start)).1 = { root with lock := b } ∧
      (Writer.run host entryId args n (root, .start)).2 ≠ .done := by
  rcases n with - | n
  · exact ⟨root.lock, rfl, nofun⟩
  rw [Writer.run_succ, Writer.step]
  by_cases hlayer : args.layer ∉ CACHE_LAYERS
  · rw [if_pos hlayer, run_raised]
    exact ⟨root.lock, rfl, nofun⟩
  rw [if_neg hlayer]
  by_cases hlock : root.lock = true
  · rw [if_pos hlock, run_raised]
    exact ⟨root.lock, rfl, nofun⟩
  rw [if_neg hlock]
  rcases n with - | n
  · exact ⟨true, rfl, nofun⟩
  have hpresent : Root.isFile { root with lock := true } MANIFEST = true := hfile
  rw [Writer.run_succ, Writer.step, if_pos hpresent, run_raised]
  exact ⟨false, rfl, nofun⟩

theorem run_of_layer (host : Host) (entryId : String) (root : Root)
    (hlayer : args.layer ∉ CACHE_LAYERS) (n : ℕ) :
    (Writer.run host entryId args n (root, .start)).1 = root ∧
      (Writer.run host entryId args n (root, .start)).2.inside = false := by
  rcases n with - | n
  · exact ⟨rfl, rfl⟩
  rw [Writer.run_succ, Writer.step, if_pos hlayer, run_raised]
  exact ⟨rfl, rfl⟩

/-- **A writer comes to its end** only when nothing is in its way. -/
theorem clear_of_done (hlayer : args.layer ∈ CACHE_LAYERS)
    (h : (published host entryId args root).2 = .done) :
    root.lock = false ∧ Root.replaceable root.dir = true := by
  have hlock : root.lock = false := by
    by_contra hlock
    rw [published, Writer.run_succ, Writer.step, if_neg (not_not.mpr hlayer),
      if_pos (by simpa using hlock)] at h
    cases h
  have hfile : root.isFile MANIFEST = false := by
    by_contra hfile
    obtain ⟨-, -, hdone⟩ := run_of_present host entryId args
      (by simpa using hfile) 8
    exact hdone h
  refine ⟨hlock, ?_⟩
  by_contra hdir
  -- the rename fails behind the first four steps
  have hstep : Writer.step host entryId args (publishing host entryId args root 4).1
      (publishing host entryId args root 4).2 =
        ((publishing host entryId args root 4).1.unlock, .raised .system) := by
    have hget : (publishing host entryId args root 4).1.temps.get? root.freshTemp = some _ :=
      get?_set_self _ _ _
    show Writer.step host entryId args _ (.validated root.freshTemp) = _
    rw [Writer.step, hget]
    exact if_neg hdir
  rw [published, show 8 = 4 + 4 from rfl, Writer.run, Function.iterate_add_apply, ← Writer.run,
    run_eq_publishing hlayer hlock hfile 4 (absurd · (lt_irrefl 4)),
    ← Prod.mk.eta (p := publishing ..),
    Writer.run_succ, hstep] at h
  cases h

theorem publishing_serves (entryId : String) (h : host.Sound) (args : PublishArgs) (root : Root)
    (hn : 7 ≤ n) :
    Serves host (publishing host entryId args root n).1 args.key := by
  obtain ⟨m, rfl⟩ := Nat.exists_eq_add_of_le' hn
  rcases m with - | m
  · exact serves_committed h rfl
  · exact serves_committed h rfl

theorem publishing_quarantined (host : Host) (entryId : String) (args : PublishArgs) (root : Root)
    (n : ℕ) :
    (publishing host entryId args root n).1.quarantined = root.quarantined := by
  match n with
  | 0 | 1 | 2 | 3 | 4 | 5 | 6 | 7 | n + 8 => rfl

/-! ### Recovery -/

/-- **When an entry recovers.** -/
theorem recovers_iff (h : host.Sound) : Recovers host entryId root ↔ Ready host root := by
  constructor
  · rintro ⟨-, ⟨key, hreadable⟩ | havailable⟩
    · obtain ⟨hserves, hquarantined⟩ := readable_iff.mp hreadable
      exact ⟨hquarantined, .inl ⟨key, hserves⟩⟩
    · have hlayer : "frame_guard" ∈ CACHE_LAYERS := by decide
      obtain ⟨hdone, hreadable⟩ := havailable ⟨"", "frame_guard", [], "", "", "", "", "", ""⟩ hlayer
      obtain ⟨hlock, hdir⟩ := clear_of_done hlayer hdone
      rw [published, run_eq_publishing hlayer hlock (replaceable_isFile hdir _) 8 fun _ => hdir]
        at hreadable
      have hquarantined := (readable_iff.mp hreadable).2
      exact ⟨hquarantined, .inr ⟨hdir, hlock⟩⟩
  · rintro ⟨hquarantined, ⟨key, hserves⟩ | ⟨hdir, hlock⟩⟩
    · refine ⟨fun args => ?_, .inl ⟨key, readable_iff.mpr ⟨hserves, hquarantined⟩⟩⟩
      obtain ⟨text, d, name, payload, hserved, -⟩ := hserves
      exact hserved.steady.2
    · refine ⟨fun args => ?_, .inr fun args hlayer => ?_⟩
      · rw [readCall_of_missing (replaceable_isFile hdir _)]
        exact nofun
      · rw [published, run_eq_publishing hlayer hlock (replaceable_isFile hdir _) 8 fun _ => hdir]
        refine ⟨rfl, readable_iff.mpr ⟨publishing_serves entryId h args root (by decide), ?_⟩⟩
        rw [publishing_quarantined, hquarantined]

theorem Ready.of_dir (hdir : root'.dir = root.dir)
    (hquarantined : root'.quarantined = root.quarantined) (hlock : root'.lock = root.lock)
    (h : Ready host root) : Ready host root' := by
  refine ⟨hquarantined.trans h.1, ?_⟩
  rcases h.2 with ⟨key, hserves⟩ | ⟨hrep, hfree⟩
  · exact .inl ⟨key, hserves.of_dir hdir⟩
  · exact .inr ⟨hdir ▸ hrep, hlock.trans hfree⟩

theorem Ready.publish_served (h : Ready host root) (hserves : Serves host root key)
    (args : PublishArgs) (steps : ℕ) (releases : Bool) :
    Ready host (publishCall host entryId args steps releases root).1 := by
  obtain ⟨b, hrun, -⟩ := run_of_present host entryId args
    hserves.isFile.1 steps
  rw [publishCall]
  dsimp only
  rw [hrun]
  split_ifs
  · refine ⟨h.1, .inl ⟨key, Serves.of_dir ?_ hserves⟩⟩
    rfl
  · refine ⟨h.1, .inl ⟨key, Serves.of_dir ?_ hserves⟩⟩
    rfl

theorem ready_iff_free (hquarantined : root.quarantined = none)
    (hdir : Root.replaceable root.dir = true) : Ready host root ↔ root.lock = false := by
  refine ⟨?_, fun hlock => ⟨hquarantined, .inr ⟨hdir, hlock⟩⟩⟩
  rintro ⟨-, ⟨key, hserves⟩ | ⟨-, hlock⟩⟩
  · rw [hserves.not_replaceable] at hdir
    cases hdir
  · exact hlock

theorem not_ready_of_unmarked (hmanifest : root.isFile MANIFEST = true)
    (hmarker : root.isFile MARKER = false) : ¬ Ready host root := by
  rintro ⟨-, ⟨key, hserves⟩ | ⟨hdir, -⟩⟩
  · rw [hserves.isFile.2] at hmarker
    cases hmarker
  · rw [replaceable_isFile hdir] at hmanifest
    cases hmanifest

theorem publishing_preparing (host : Host) (entryId : String) (args : PublishArgs) (root : Root)
    (hpos : 0 < n) (hn : n ≤ 4) :
    (publishing host entryId args root n).1.dir = root.dir ∧
      (publishing host entryId args root n).1.lock = true ∧
        (publishing host entryId args root n).2.inside = true := by
  match n with
  | 1 | 2 | 3 | 4 => exact ⟨rfl, rfl, rfl⟩

theorem publishing_unmarked (host : Host) (entryId : String) (args : PublishArgs) (root : Root)
    (hn : n = 5 ∨ n = 6) :
    (publishing host entryId args root n).1.isFile MANIFEST = true ∧
      (publishing host entryId args root n).1.isFile MARKER = false := by
  have hplaced : (placedFiles host entryId args).get? MARKER = none := by
    rw [placedFiles,
      get?_set_of_ne _ _ (by decide)]
    rfl
  rcases hn with rfl | rfl
  · constructor
    · show (OrderedDict.get? (placedFiles host entryId args) MANIFEST).isSome = true
      rfl
    · show (OrderedDict.get? (placedFiles host entryId args) MARKER).isSome = false
      rfl
  · constructor
    · show (OrderedDict.get? (promotedFiles host entryId args) MANIFEST).isSome = true
      rfl
    · show (OrderedDict.get? (promotedFiles host entryId args) MARKER).isSome = false
      rfl

/-- **A writer that finds nothing** leaves an entry that recovers unless it is killed behind the
rename and in front of the marker, or keeps the lock. -/
theorem ready_publish_iff (hhost : host.Sound) (hquarantined : root.quarantined = none)
    (hdir : Root.replaceable root.dir = true) (hlock : root.lock = false)
    (hlayer : args.layer ∈ CACHE_LAYERS) (steps : ℕ) (releases : Bool) :
    Ready host (publishCall host entryId args steps releases root).1 ↔
      steps = 0 ∨ (steps ≤ 4 ∧ releases = true) ∨ 7 ≤ steps := by
  rw [publishCall]
  dsimp only
  rw [run_eq_publishing hlayer hlock (replaceable_isFile hdir _) steps fun _ => hdir]
  have hq := (publishing_quarantined host entryId args root steps).trans hquarantined
  rcases Nat.eq_zero_or_pos steps with rfl | hpos
  · rw [show (publishing host entryId args root 0).2.inside = false from rfl, Bool.and_false]
    exact iff_of_true ⟨hquarantined, .inr ⟨hdir, hlock⟩⟩ (.inl rfl)
  by_cases hfour : steps ≤ 4
  · obtain ⟨hsame, hheld, hinside⟩ := publishing_preparing host entryId args root
      hpos hfour
    rw [← hsame] at hdir
    rw [hinside, Bool.and_true]
    cases releases with
    | false =>
      rw [if_neg Bool.false_ne_true, ready_iff_free hq hdir, hheld]
      exact iff_of_false nofun (by simp; omega)
    | true =>
      exact iff_of_true ⟨hq, .inr ⟨hdir, rfl⟩⟩ (.inr (.inl ⟨hfour, rfl⟩))
  by_cases hseven : steps < 7
  · refine iff_of_false ?_ (by omega)
    obtain ⟨hmanifest, hmarker⟩ := publishing_unmarked host entryId args root
      (n := steps) (by omega)
    split_ifs
    · exact not_ready_of_unmarked hmanifest hmarker
    · exact not_ready_of_unmarked hmanifest hmarker
  · refine iff_of_true ?_ (.inr (.inr (by omega)))
    have hserves := publishing_serves entryId hhost args root (Nat.le_of_not_lt hseven)
    split_ifs
    · refine ⟨hq, .inl ⟨_, Serves.of_dir ?_ hserves⟩⟩
      rfl
    · exact ⟨hq, .inl ⟨_, hserves⟩⟩

/-- A corruption that finds a file finds an entry that is served, and leaves another file. -/
theorem ready_corrupt_iff (h : Ready host root) {name : String} (content : Option Bytes)
    (hfile : root.isFile name = true) :
    Ready host (root.corrupt name content) ↔ ∃ key, Serves host (root.corrupt name content) key := by
  have hserves : ∃ key, Serves host root key := by
    refine h.2.resolve_right fun hfree => ?_
    rw [replaceable_isFile hfree.1] at hfile
    cases hfile
  obtain ⟨key, hserves⟩ := hserves
  refine ⟨fun hready => hready.2.resolve_right fun hfree => ?_, fun hserves' => ⟨?_, .inl hserves'⟩⟩
  · have hkept : ∀ name', name' ≠ name → (root.corrupt name content).isFile name' = root.isFile name' := by
      intro name' hne
      rw [Root.corrupt, if_pos hfile, Root.isFile, Root.isFile]
      cases root.dir with
      | none => rfl
      | some files => rw [Option.map_some, Option.any_some, Option.any_some, get?_tamper,
        if_neg hne]
    -- the manifest and the marker are two files
    by_cases hname : MANIFEST = name
    · have := hkept MARKER (by rw [← hname]; decide)
      rw [replaceable_isFile hfree.1, hserves.isFile.2] at this
      cases this
    · have := hkept MANIFEST hname
      rw [replaceable_isFile hfree.1, hserves.isFile.1] at this
      cases this
  · rw [Root.corrupt, if_pos hfile]
    exact h.1

/-- **A call leaves an entry that recovers** exactly when it is one of those. -/
theorem ready_apply_iff (entryId : String) (hhost : host.Sound) (h : Ready host root) (call : Call) :
    Ready host (root.apply host entryId call) ↔ Meets host root call := by
  cases call with
  | publish args steps releases =>
    by_cases hserves : ∃ key, Serves host root key
    · obtain ⟨key, hserves⟩ := hserves
      exact iff_of_true (h.publish_served hserves args steps releases) (.inl ⟨key, hserves⟩)
    obtain ⟨hdir, hlock⟩ := h.2.resolve_left hserves
    by_cases hlayer : args.layer ∈ CACHE_LAYERS
    · rw [Root.apply, ready_publish_iff hhost h.1 hdir hlock hlayer, Meets]
      simp only [hserves, hlayer, not_true_eq_false, false_or]
    · obtain ⟨hsame, hinside⟩ := run_of_layer host entryId root hlayer steps
      refine iff_of_true ?_ (.inr (.inl hlayer))
      rw [Root.apply, publishCall]
      dsimp only
      rw [hinside, Bool.and_false, hsame]
      exact h
  | read args =>
    refine iff_of_true ?_ trivial
    rw [Root.apply]
    rcases h.2 with ⟨key, text, d, name, payload, hserved, -⟩ | ⟨hdir, -⟩
    · rw [hserved.steady.1]
      exact h
    · rw [readCall_of_missing (replaceable_isFile hdir _)]
      exact h
  | cleanupTemp =>
    refine iff_of_true (h.of_dir ?_ ?_ ?_) trivial
    · rfl
    · rfl
    · rfl
  | quarantine =>
    rw [Root.apply, Root.quarantine, Meets]
    cases hdir : root.dir with
    | none => exact iff_of_true h rfl
    | some files =>
      have hfree : Root.replaceable root.quarantined = true := by rw [h.1]; rfl
      simp only [if_pos hfree]
      exact iff_of_false (fun hready => nomatch hready.1) nofun
  | corrupt name content =>
    rw [Root.apply, Meets]
    cases hfile : root.isFile name with
    | false =>
      have hsame : root.corrupt name content = root := by
        rw [Root.corrupt, if_neg (by simp [hfile])]
      exact iff_of_true (hsame.symm ▸ h) (.inl rfl)
    | true =>
      rw [ready_corrupt_iff h content hfile]
      simp

theorem mem_states (root : Root) (calls : List Call) : root ∈ root.states host entryId calls := by
  cases calls with
  | nil => exact mem_singleton_self root
  | cons call calls =>
    rw [Root.states, scanl_cons]
    exact .head _

/-- **An entry recovers throughout** exactly when every call is one of those. -/
theorem recovers_states_iff (hhost : host.Sound) (calls : List Call) (h : Ready host root) :
    (∀ root' ∈ root.states host entryId calls, Recovers host entryId root') ↔
      AllMeet host entryId root calls := by
  induction calls generalizing root with
  | nil => simp [Root.states, AllMeet, recovers_iff hhost, h]
  | cons call calls ih =>
    rw [Root.states, scanl_cons, forall_mem_cons, AllMeet,
      ← ready_apply_iff entryId hhost h call]
    constructor
    · rintro ⟨-, hall⟩
      have hnext : Ready host (root.apply host entryId call) := by
        exact (recovers_iff hhost).mp (hall _ (mem_states _ calls))
      exact ⟨hnext, (ih hnext).mp hall⟩
    · rintro ⟨hnext, hall⟩
      exact ⟨(recovers_iff hhost).mpr h, (ih hnext).mpr hall⟩

theorem ready_nothing : Ready host .nothing := ⟨rfl, .inr ⟨rfl, rfl⟩⟩

/-- **A cache entry recovers** from everything but these. -/
theorem recovers_throughout_iff (hhost : host.Sound) (calls : List Call) :
    (∀ root ∈ Root.nothing.states host entryId calls, Recovers host entryId root) ↔
      AllMeet host entryId .nothing calls :=
  recovers_states_iff hhost calls ready_nothing

/-! ### Stuck, and served -/

/-- **A writer killed in front of the marker** leaves an entry that is not served and not replaced,
and an entry id that was quarantined does not count as committed again. -/
theorem killed_before_marker_sticks :
    ¬ Recovers plainHost "e" (Root.nothing.apply plainHost "e" (.publish (framePublish "k" []) 5 true)) ∧
    ¬ Recovers plainHost "e" ((Root.nothing.apply plainHost "e"
      (.publish (framePublish "k" []) 8 true)).apply plainHost "e" .quarantine) := by
  have hlayer := framePublish_layer "k" []
  rw [recovers_iff plainHost_sound, recovers_iff plainHost_sound,
    ready_apply_iff "e" plainHost_sound ready_nothing]
  have hready : Ready plainHost
      (Root.nothing.apply plainHost "e" (.publish (framePublish "k" []) 8 true)) :=
    (ready_apply_iff "e" plainHost_sound ready_nothing _).mpr (.inr (.inr (.inr (.inr (by decide)))))
  rw [ready_apply_iff "e" plainHost_sound hready]
  constructor
  · rintro (⟨key, hserves⟩ | hunknown | hzero | ⟨hfour, -⟩ | hseven)
    · exact nomatch hserves.isFile.1
    · exact hunknown hlayer
    · cases hzero
    · exact absurd hfour (by decide)
    · exact absurd hseven (by decide)
  · intro hnone
    rw [Root.apply, publishCall] at hnone
    cases hnone

/-- A writer that is killed early and lets go of the lock does no harm: the entry that is
published after it is served. -/
theorem killed_early_recovers :
    Recovers plainHost "e" ((Root.nothing.apply plainHost "e"
      (.publish (framePublish "k" []) 4 true)).apply plainHost "e"
        (.publish (framePublish "k" []) 8 true)) :=
  (recovers_throughout_iff plainHost_sound
    [.publish (framePublish "k" []) 4 true, .publish (framePublish "k" []) 8 true]).mpr
    ⟨.inr (.inr (.inr (.inl ⟨by decide, rfl⟩))), .inr (.inr (.inr (.inr (by decide)))), trivial⟩
    _ (.tail _ (.tail _ mem_cons_self))

end

end EntryStore

end Hqsb.Compiler
