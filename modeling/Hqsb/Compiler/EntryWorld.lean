/-
Hqsb/Compiler/EntryWorld.lean

Calls of the compile cache that run at the same time.

Any number of writers and readers are under way, each of them may stop anywhere, and committed
entries are tampered with.  `Stored` is what holds of the entry at any time when nobody writes a
manifest that is believed, other than the committed one; a writer keeps it at every step
(`Shelf.write_spec`), and the lock keeps the other writers away (`Writer.step_lock`).
-/
import Hqsb.Compiler.EntryCalls

namespace Hqsb.Compiler

open Lib OrderedDict

namespace EntryStore

variable (host : Host) (entryId : String)

/-! ### Runs -/

/-- The entry, with whose it is in the directory and the calls of `publish` that have left their
marker. -/
structure Shelf where
  root : Root
  owner : Option PublishArgs
  completed : List PublishArgs

/-- The entry, and the calls that are under way. -/
structure World extends Shelf where
  writers : ℕ → Option (PublishArgs × Writer)
  readers : ℕ → Option (ReadArgs × Reader)

inductive Action where
  | publish (i : ℕ) (args : PublishArgs)
  | write (i : ℕ)
  | crash (i : ℕ) (releases : Bool)
  | read (i : ℕ) (args : ReadArgs)
  | look (i : ℕ)
  | modify (name : String) (content : Option Bytes)

def Writer.placed : Writer → Writer → Bool
  | .validated _, .renamed => true
  | _, _ => false

def Writer.marked : Writer → Writer → Bool
  | .promoted, .committed => true
  | _, _ => false

def Shelf.write (s : Shelf) (args : PublishArgs) (pc : Writer) : Shelf × Writer :=
  let (root, pc') := pc.step host entryId args s.root
  ({ root := root
     owner := if pc.placed pc' then some args else s.owner
     completed := if pc.marked pc' then args :: s.completed else s.completed }, pc')

def World.next (w : World) : Action → Option World
  | .publish i args =>
    if (w.writers i).isSome then none
    else some { w with writers := Function.update w.writers i (some (args, .start)) }
  | .write i => (w.writers i).map fun (args, pc) =>
    let (s, pc') := w.toShelf.write host entryId args pc
    { w with toShelf := s, writers := Function.update w.writers i (some (args, pc')) }
  | .crash i releases => (w.writers i).map fun (_, pc) =>
    { w with
      root := if releases && pc.inside then w.root.unlock else w.root
      writers := Function.update w.writers i none }
  | .read i args =>
    if (w.readers i).isSome then none
    else some { w with readers := Function.update w.readers i (some (args, .start)) }
  | .look i => (w.readers i).map fun (args, pc) =>
    let (root, pc') := pc.step host args w.root
    { w with root := root, readers := Function.update w.readers i (some (args, pc')) }
  | .modify name content =>
    if name ∈ [MANIFEST, PAYLOAD] ∧ w.root.isFile MARKER = true then
      w.root.dir.map fun files =>
        { w with root := { w.root with dir := some (tamper files name content) } }
    else none

def World.empty : World := ⟨⟨.nothing, none, []⟩, fun _ => none, fun _ => none⟩

/-- What is reached from nothing by actions that are allowed. -/
inductive Run (allowed : World → Action → Prop) : World → Prop where
  | empty : Run allowed .empty
  | step {w w' : World} {a : Action} : Run allowed w → allowed w a →
      w.next host entryId a = some w' → Run allowed w'

/-- An action that does not write a manifest that is believed, other than the committed one, and
does not change a payload under a reader that has compared its hash. -/
structure Careful (w : World) (a : Action) : Prop where
  manifest : ∀ b, a = .modify MANIFEST (some b) → Believed host b →
    ∃ args, w.owner = some args ∧ b = committedManifest host entryId args
  payload : ∀ w', w.next host entryId a = some w' → ∀ i args text name,
    w.readers i = some (args, .hashed text name) → ∀ b, payloadContent host w'.root name = some b →
      payloadContent host w.root name = some b

/-- What a hit should be: the payload of a completed call with the key that was asked for, by way
of the manifest that this call has committed. -/
def Right (s : Shelf) (args : ReadArgs) (payload text : Bytes) : Prop :=
  ∃ p ∈ s.completed, p.key = args.expectedKey ∧ p.payload = payload ∧
    text = committedManifest host entryId p

section

variable {host entryId}

/-! ### What is on the shelf -/

/-- Every manifest in the entry is the committed one of its owner, or is not believed. -/
structure Stored (host : Host) (entryId : String) (s : Shelf) : Prop where
  manifest : ∀ text, s.root.content MANIFEST = some text → Believed host text →
    ∃ p, s.owner = some p ∧ text = committedManifest host entryId p
  marker : s.root.isFile MARKER = true → ∃ p ∈ s.completed, s.owner = some p
  nonempty : ∀ files, s.root.dir = some files → files.entries ≠ []
  temps : ∀ id files, s.root.temps.get? id = some files →
    files.get? MARKER = none ∧ ∀ text, files.get? MANIFEST = some text → ¬ Believed host text

def Held (s : Shelf) (args : PublishArgs) : Writer → Prop
  | .validated id => ∀ files, s.root.temps.get? id = some files → (files.get? MANIFEST).isSome
  | .renamed | .promoted => s.owner = some args ∨ s.root.dir = none
  | _ => True

/-- There is somebody's entry in the directory. -/
def Holds (s : Shelf) (p : PublishArgs) : Prop := s.root.dir.isSome = true ∧ s.owner = some p

/-- The directory cannot be moved away, or it holds a completed entry. -/
def Safe (s : Shelf) : Prop :=
  Root.replaceable s.root.quarantined = false ∨ ∃ p ∈ s.completed, Holds s p

/-- What stays true for readers. -/
structure Later (s s' : Shelf) : Prop where
  completed : ∀ p ∈ s.completed, p ∈ s'.completed
  holds : ∀ p, Holds s p → p ∈ s'.completed ∨ Holds s' p
  safe : Safe s → Safe s'

/-- A manifest that a reader has in its hands. -/
def Known (host : Host) (entryId : String) (s : Shelf) (text : Bytes) : Prop :=
  Believed host text →
    ∃ p, text = committedManifest host entryId p ∧ (p ∈ s.completed ∨ Holds s p)

/-- A manifest that was committed by a completed call with the key that is asked for. -/
def Vouched (host : Host) (entryId : String) (s : Shelf) (args : ReadArgs) (text : Bytes)
    (p : PublishArgs) : Prop :=
  p ∈ s.completed ∧ p.key = args.expectedKey ∧ text = committedManifest host entryId p

def Reading (host : Host) (entryId : String) (s : Shelf) (args : ReadArgs) : Reader → Prop
  | .parsed text d => host.load text = .ok (.mapping d) ∧ inspect host args d = none ∧
      Known host entryId s text
  | .marked text d name => host.load text = .ok (.mapping d) ∧ name = PAYLOAD ∧ Safe s ∧
      ∃ p, Vouched host entryId s args text p
  | .hashed text name => ∃ p, Vouched host entryId s args text p ∧
      ∀ b, payloadContent host s.root name = some b → b = p.payload
  | .mismatched => Safe s
  | .hit payload text => Right host entryId s args payload text
  | _ => True

/-- What holds at any time. -/
structure Inv (host : Host) (entryId : String) (w : World) : Prop where
  stored : Stored host entryId w.toShelf
  writers : ∀ i args pc, w.writers i = some (args, pc) → pc.inside = true →
    Held w.toShelf args pc ∧ w.root.lock = true ∧
      ∀ j b pc', w.writers j = some (b, pc') → pc'.inside = true → j = i
  readers : ∀ i args pc, w.readers i = some (args, pc) → Reading host entryId w.toShelf args pc

/-! ### Writers -/

structure Wrote (host : Host) (entryId : String) (s : Shelf) (args : PublishArgs)
    (r : Shelf × Writer) : Prop where
  stored : Stored host entryId r.1
  held : Held r.1 args r.2
  later : Later s r.1

theorem Later.refl (s : Shelf) : Later s s :=
  ⟨fun _ => id, fun _ => .inr, id⟩

variable {s : Shelf} {args : PublishArgs} {pc : Writer} {files : Files}

/-- Readers do not notice what happens to the lock and to temporary directories. -/
theorem Later.of_dir {s' : Shelf} (hdir : s'.root.dir = s.root.dir)
    (hquarantined : s'.root.quarantined = s.root.quarantined) (howner : s'.owner = s.owner)
    (hcompleted : s'.completed = s.completed) : Later s s' := by
  have hholds : ∀ p, Holds s p → Holds s' p := by
    rintro p ⟨hd, ho⟩
    exact ⟨hdir ▸ hd, howner ▸ ho⟩
  refine ⟨fun p hp => hcompleted ▸ hp, fun p hp => .inr (hholds p hp), ?_⟩
  rintro (h | ⟨p, hp, h⟩)
  · exact .inl (hquarantined ▸ h)
  · exact .inr ⟨p, hcompleted ▸ hp, hholds p h⟩

theorem Wrote.same (hs : Stored host entryId s) (hpc : pc.inside = false) :
    Wrote host entryId s args (s, pc) := by
  refine ⟨hs, ?_, .refl s⟩
  cases pc with
  | start | done | raised => trivial
  | locked | temp | written | validated | renamed | promoted | committed => cases hpc

theorem Wrote.lock (hs : Stored host entryId s) {b : Bool}
    (hpc : pc = .locked ∨ pc.inside = false) :
    Wrote host entryId s args ({ s with root := { s.root with lock := b } }, pc) := by
  refine ⟨{ hs with }, ?_, .of_dir rfl rfl rfl rfl⟩
  cases pc with
  | start | locked | done | raised => trivial
  | temp | written | validated | renamed | promoted | committed => exact nomatch hpc

theorem Stored.temp (hs : Stored host entryId s) {id : ℕ} (hmarker : files.get? MARKER = none)
    (hmanifest : ∀ text, files.get? MANIFEST = some text → ¬ Believed host text) :
    Stored host entryId { s with root := { s.root with temps := s.root.temps.set id files } } := by
  refine ⟨hs.manifest, hs.marker, hs.nonempty, fun id' files' h => ?_⟩
  rw [get?_set] at h
  split_ifs at h
  · cases h
    exact ⟨hmarker, hmanifest⟩
  · exact hs.temps id' files' h

theorem content_set {root : Root} (name : String) (b : Bytes) (name' : String) :
    Root.content { root with dir := some (files.set name b) } name' =
      if name' = name then some b else files.get? name' :=
  get?_set ..

theorem set_nonempty (name : String) (b : Bytes) : (files.set name b).entries ≠ [] := by
  intro h
  have hmem := (mem_keys_set files name b name).mpr (.inl rfl)
  rw [OrderedDict.keys, h] at hmem
  cases hmem

theorem Shelf.write_of_step {pc' : Writer} {root : Root}
    (h : pc.step host entryId args s.root = (root, pc')) :
    s.write host entryId args pc =
      ({ root := root
         owner := if pc.placed pc' then some args else s.owner
         completed := if pc.marked pc' then args :: s.completed else s.completed }, pc') := by
  rw [Shelf.write, h]

/-- **A step of a writer** keeps the entry in order. -/
theorem Shelf.write_spec (h : host.Sound) (hs : Stored host entryId s) (hpc : Held s args pc) :
    Wrote host entryId s args (s.write host entryId args pc) := by
  cases pc with
  | start =>
    rw [Shelf.write, Writer.step]
    by_cases hlayer : args.layer ∉ CACHE_LAYERS
    · rw [if_pos hlayer]
      exact .same hs rfl
    rw [if_neg hlayer]
    by_cases hlock : s.root.lock = true
    · rw [if_pos hlock]
      exact .same hs rfl
    · rw [if_neg hlock]
      exact .lock hs (.inl rfl)
  | locked =>
    rw [Shelf.write, Writer.step]
    by_cases hfile : s.root.isFile MANIFEST = true
    · rw [if_pos hfile]
      exact .lock hs (.inr rfl)
    · rw [if_neg hfile]
      exact ⟨hs.temp rfl nofun, trivial, .of_dir rfl rfl rfl rfl⟩
  | temp id =>
    rw [Shelf.write, Writer.step]
    cases hget : s.root.temps.get? id with
    | none => exact .lock hs (.inr rfl)
    | some files =>
      obtain ⟨hmarker, hmanifest⟩ := hs.temps id files hget
      refine ⟨hs.temp ?_ ?_, trivial, .of_dir rfl rfl rfl rfl⟩
      · rw [get?_set_of_ne _ _ (by decide)]
        exact hmarker
      · rw [get?_set_of_ne _ _ (by decide)]
        exact hmanifest
  | written id =>
    rw [Shelf.write, Writer.step]
    cases hget : s.root.temps.get? id with
    | none => exact .lock hs (.inr rfl)
    | some files =>
      obtain ⟨hmarker, -⟩ := hs.temps id files hget
      refine ⟨hs.temp ?_ ?_, ?_, .of_dir rfl rfl rfl rfl⟩
      · rw [get?_set_of_ne _ _ (by decide)]
        exact hmarker
      · rintro text htext
        rw [get?_set_self] at htext
        cases htext
        exact not_believed_validating h args
      · intro files' hfiles'
        rw [get?_set_self] at hfiles'
        cases hfiles'
        rw [get?_set_self]
        rfl
  | validated id =>
    cases hget : s.root.temps.get? id with
    | none =>
      rw [Shelf.write_of_step (show _ = (s.root.unlock, .raised .system) by
        simp only [Writer.step, hget])]
      exact .lock hs (.inr rfl)
    | some files =>
      by_cases hempty : Root.replaceable s.root.dir = true
      · rw [Shelf.write_of_step (Writer.step_validated hget hempty)]
        -- no directory is empty, so there was none
        have hdir : s.root.dir = none := by
          cases hdir : s.root.dir with
          | none => rfl
          | some old =>
            rw [hdir] at hempty
            exact absurd (List.isEmpty_iff.mp hempty) (hs.nonempty old hdir)
        obtain ⟨hmarker, hmanifest⟩ := hs.temps id files hget
        refine ⟨⟨?_, ?_, ?_, ?_⟩, .inl rfl, ⟨fun _ hp => hp, ?_, ?_⟩⟩
        · intro text htext hbelieved
          exact absurd hbelieved (hmanifest text htext)
        · intro hfile
          rw [isFile_eq] at hfile
          exact absurd hfile (by simp [Root.content, hmarker])
        · rintro _ ⟨⟩ hnil
          obtain ⟨b, hb⟩ := Option.isSome_iff_exists.mp (hpc files hget)
          rw [get?_eq_some_iff, hnil] at hb
          cases hb
        · intro id' files' hfiles'
          rw [get?_erase] at hfiles'
          split_ifs at hfiles'
          exact hs.temps id' files' hfiles'
        · rintro p ⟨hsome, -⟩
          rw [hdir] at hsome
          cases hsome
        · rintro (hsafe | ⟨p, -, hsome, -⟩)
          · exact .inl hsafe
          · rw [hdir] at hsome
            cases hsome
      · rw [Shelf.write_of_step (show _ = (s.root.unlock, .raised .system) by
          simp only [Writer.step, hget, if_neg hempty])]
        exact .lock hs (.inr rfl)
  | renamed =>
    cases hdir : s.root.dir with
    | none =>
      rw [Shelf.write_of_step (show _ = (s.root.unlock, .raised .system) by
        simp only [Writer.step, Root.write, hdir, Option.map_none])]
      exact .lock hs (.inr rfl)
    | some files =>
      rw [Shelf.write_of_step (Writer.step_renamed hdir)]
      have howner : s.owner = some args := hpc.resolve_right (by simp [hdir])
      refine ⟨⟨?_, ?_, ?_, hs.temps⟩, .inl howner, ⟨fun _ => id, ?_, ?_⟩⟩
      · intro text htext _
        rw [content_set] at htext
        cases htext
        exact ⟨args, howner, rfl⟩
      · intro hfile
        refine hs.marker ?_
        rw [isFile_eq, content_set] at hfile
        rw [isFile_eq, Root.content, hdir]
        exact hfile
      · rintro _ ⟨⟩
        exact set_nonempty _ _
      · rintro p ⟨-, hp⟩
        exact .inr ⟨rfl, hp⟩
      · rintro (hsafe | ⟨p, hp, -, ho⟩)
        · exact .inl hsafe
        · exact .inr ⟨p, hp, rfl, ho⟩
  | promoted =>
    cases hdir : s.root.dir with
    | none =>
      rw [Shelf.write_of_step (show _ = (s.root.unlock, .raised .system) by
        simp only [Writer.step, Root.write, hdir, Option.map_none])]
      exact .lock hs (.inr rfl)
    | some files =>
      rw [Shelf.write_of_step (Writer.step_promoted hdir)]
      have howner : s.owner = some args := hpc.resolve_right (by simp [hdir])
      refine ⟨⟨?_, ?_, ?_, hs.temps⟩, trivial, ⟨fun p => List.mem_cons_of_mem _, ?_, ?_⟩⟩
      · intro text htext
        rw [content_set] at htext
        exact hs.manifest text (by rw [Root.content, hdir]; exact htext)
      · intro _
        exact ⟨args, List.mem_cons_self, howner⟩
      · rintro _ ⟨⟩
        exact set_nonempty _ _
      · rintro p ⟨-, hp⟩
        exact .inr ⟨rfl, hp⟩
      · rintro (hsafe | ⟨p, hp, -, ho⟩)
        · exact .inl hsafe
        · exact .inr ⟨p, List.mem_cons_of_mem _ hp, rfl, ho⟩
  | committed => exact .lock hs (.inr rfl)
  | done => exact .same hs rfl
  | raised e => exact .same hs rfl

/-- The lock is taken by who enters, and let go by who leaves. -/
theorem Writer.step_lock (host : Host) (entryId : String) (args : PublishArgs) (root : Root)
    (pc : Writer) :
    ((pc.step host entryId args root).2.inside = true →
      (pc.inside = true → root.lock = true) → (pc.step host entryId args root).1.lock = true) ∧
    (pc.inside = false →
      ((pc.step host entryId args root).2.inside = true → root.lock = false) ∧
      ((pc.step host entryId args root).2.inside = false →
        (pc.step host entryId args root).1 = root)) := by
  cases pc with
  | start =>
    rw [Writer.step]
    split_ifs with hlayer hlock
    all_goals simp_all [Writer.inside]
  | locked =>
    rw [Writer.step]
    split_ifs
    all_goals simp [Writer.inside]
  | temp id | written id =>
    rw [Writer.step]
    cases root.temps.get? id
    all_goals simp [Writer.inside]
  | validated id =>
    rw [Writer.step]
    cases root.temps.get? id with
    | none => simp [Writer.inside]
    | some files => by_cases h : Root.replaceable root.dir = true <;> simp [h, Writer.inside]
  | renamed | promoted =>
    rw [Writer.step, Root.write]
    cases root.dir
    all_goals simp [Writer.inside]
  | committed | done | raised => simp [Writer.step, Writer.inside]

end

end EntryStore

end Hqsb.Compiler
