/-
Hqsb/Compiler/EntryCalls.lean

Whole calls of the compile cache, and what readers make of the manifests that it writes.

The libraries are expected to keep what they are given: `json.load` finds the fields that were
written, in some order, hashes do not collide, and `str` of a string is the string.  Then the
fingerprint of a manifest is the one that was recorded, whatever the order of its fields.

A call is its steps without anything in between.  `publishing` lists what a writer leaves after
each of its steps when nothing stops it, and an entry is served (`Served`) when the steps of a
reader go through: then a request for its key hits (`Served.hit`) and no request raises
(`Served.steady`); nothing else hits (`served_of_hit`).
-/
import Hqsb.Compiler.EntryStore

namespace Hqsb.Compiler

open Lib List OrderedDict

theorem Payload.sortMembers_perm {α : Type*} (members : List (String × α)) :
    (sortMembers members).Perm members := perm_insertionSort _ _

/-- The canonical text does not depend on the order of the members. -/
theorem Payload.canonicalJson_of_perm {members members' : List (String × Payload)}
    (hnodup : (members.map Prod.fst).Nodup) (h : members.Perm members') :
    (Payload.dict members).canonicalJson = (Payload.dict members').canonicalJson := by
  rw [canonicalJson_inj, Same, sorted, sorted, sortedMembers_eq, sortedMembers_eq]
  have hmap : (members.map fun m => (m.1, m.2.sorted)).Perm
      (members'.map fun m => (m.1, m.2.sorted)) := h.map _
  have hkeys : ((members.map fun m => (m.1, m.2.sorted)).map Prod.fst).Nodup := by
    rw [map_map]
    exact hnodup
  refine congrArg Payload.dict (List.Perm.eq_of_pairwise ?_ (pairwise_map.mp (sortMembers_sorted _))
    (pairwise_map.mp (sortMembers_sorted _)) ?_)
  · intro a b ha hb hab hba
    rw [mem_sortMembers] at ha hb
    exact inj_on_of_nodup_map hkeys ha (hmap.mem_iff.mpr hb) (le_antisymm hab hba)
  · exact (sortMembers_perm _).trans (hmap.trans (sortMembers_perm _).symm)

namespace EntryStore

/-- What is expected of the libraries. -/
structure Host.Sound (host : Host) : Prop where
  sha256 : Function.Injective host.sha256
  str : ∀ s, host.str (.str s) = s
  load : ∀ m : EntryManifest, ∃ d, host.load (dump m.asDict) = .ok (.mapping d) ∧
    d.entries.Perm m.asDict.entries

def Believed (host : Host) (text : Bytes) : Prop :=
  ∃ d, host.load text = .ok (.mapping d) ∧ vouch host d = none

/-! ### Manifests that are written -/

section Manifests

variable {host : Host} {entryId : String} {d d' : Attrs} {m : EntryManifest} {p : PublishArgs}
  {args : ReadArgs}

theorem get?_of_perm (h : d.entries.Perm d'.entries) (name : String) :
    d.get? name = d'.get? name := by
  apply Option.ext
  intro p
  rw [get?_eq_some_iff, get?_eq_some_iff, h.mem_iff]

theorem perm_of_get? (h : ∀ name, d.get? name = d'.get? name) : d.entries.Perm d'.entries := by
  rw [perm_ext_iff_of_nodup d.nodup.of_map d'.nodup.of_map]
  rintro ⟨name, p⟩
  rw [← get?_eq_some_iff, ← get?_eq_some_iff, h]

/-- **The fingerprint** is that of the other fields. -/
theorem fingerprint_congr (h : ∀ name, name ≠ "metadata_sha256" → d.get? name = d'.get? name) :
    fingerprint host d = fingerprint host d' := by
  have hperm : (d.set "metadata_sha256" (.str "")).entries.Perm
      (d'.set "metadata_sha256" (.str "")).entries := by
    apply perm_of_get?
    intro name
    rw [get?_set, get?_set]
    split_ifs with hname
    · rfl
    · exact h name hname
  rw [fingerprint, fingerprint, dump, dump,
    Payload.canonicalJson_of_perm (nodup_keys _) hperm]

theorem Host.Sound.load_dump (h : host.Sound) (m : EntryManifest)
    (hd : host.load (dump m.asDict) = .ok (.mapping d)) (name : String) :
    d.get? name = m.asDict.get? name := by
  obtain ⟨d', hload, hperm⟩ := h.load m
  rw [hd] at hload
  cases hload
  exact get?_of_perm hperm name

theorem Host.Sound.fieldText (h : host.Sound) {name t : String}
    (hget : d.get? name = some (.str t)) : fieldText host d name = t := by
  rw [EntryStore.fieldText, hget]
  exact h.str t

/-- A manifest that says that it is committed is believed, with its own fingerprint or with none. -/
theorem vouch_dump (h : host.Sound) (hload : host.load (dump m.asDict) = .ok (.mapping d))
    (hstate : m.state = STATE_COMMITTED)
    (hhash : m.metadataSha256 = "" ∨ m.metadataSha256 = fingerprint host m.asDict) :
    vouch host d = none := by
  have hget := h.load_dump m hload
  have hfingerprint : fingerprint host d = fingerprint host m.asDict :=
    fingerprint_congr fun name _ => hget name
  rw [vouch, h.fieldText (hget "state"), h.fieldText (hget "metadata_sha256"),
    if_neg (not_not.mpr hstate), if_neg]
  rintro ⟨hrecorded, hdiffers⟩
  exact hhash.elim hrecorded fun hown => hdiffers (by rw [hfingerprint, hown])

theorem finalManifest_hash (args : PublishArgs) : (finalManifest host entryId args).metadataSha256 =
      fingerprint host (finalManifest host entryId args).asDict := by
  refine fingerprint_congr fun name hname => ?_
  have hne : ("metadata_sha256" = name) = False := eq_false (Ne.symm hname)
  simp only [OrderedDict.get?, EntryManifest.asDict, finalManifest, List.find?_cons, hne,
    decide_false]

theorem not_believed_validating (h : host.Sound) (p : PublishArgs) :
    ¬ Believed host (validatingManifest host entryId p) := by
  rintro ⟨d, hload, hvouch⟩
  have hstate : fieldText host d "state" = STATE_VALIDATING := by
    rw [fieldText, h.load_dump _ hload]
    exact h.str _
  rw [vouch, if_pos (by rw [hstate]; decide)] at hvouch
  cases hvouch

theorem isText_str {s t : String} (h : isText (some (.str s)) t = true) : s = t :=
  of_decide_eq_true h

theorem committed_fields (h : host.Sound)
    (hload : host.load (committedManifest host entryId p) = .ok (.mapping d)) :
    d.get? "key" = some (.str p.key) ∧ d.get? "payload_name" = some (.str PAYLOAD) ∧
      d.get? "payload_sha256" = some (.str (host.sha256 p.payload)) := by
  have hget := h.load_dump _ hload
  exact ⟨hget "key", hget "payload_name", hget "payload_sha256"⟩

theorem inspect_key (h : inspect host args d = none) :
    isText (d.get? "key") args.expectedKey = true := by
  rw [inspect] at h
  split_ifs at h with hschema hkey
  all_goals simpa using hkey

theorem inspect_committed (h : host.Sound)
    (hload : host.load (committedManifest host entryId p) = .ok (.mapping d))
    (hinspect : inspect host args d = none) : p.key = args.expectedKey := by
  have hkey := inspect_key hinspect
  rw [(committed_fields h hload).1] at hkey
  exact isText_str hkey

theorem payloadName_committed (h : host.Sound)
    (hload : host.load (committedManifest host entryId p) = .ok (.mapping d)) {name : String}
    (hname : payloadName d = .ok name) : name = PAYLOAD := by
  rw [payloadName, (committed_fields h hload).2.1] at hname
  split_ifs at hname
  cases hname
  rfl

/-- A request that a manifest answers. -/
structure Asks (args : ReadArgs) (m : EntryManifest) : Prop where
  schema : args.schemaSupported m.schemaVersion = true
  key : args.expectedKey = m.key
  targetArch : args.targetArch ≠ "" → m.targetArch ≠ "" → m.targetArch = args.targetArch
  abiVersion : args.abiVersion ≠ "" → m.abiVersion ≠ "" → m.abiVersion = args.abiVersion
  guard : args.guardCovers = true

theorem clashes_str {asked s : String} (h : asked ≠ "" → s ≠ "" → s = asked) :
    clashes asked (some (.str s)) = false := by
  by_cases hasked : asked = ""
  · simp [clashes, hasked]
  by_cases hs : s = ""
  · simp [clashes, hs, Payload.truthy]
  · simp [clashes, isText, h hasked hs]

/-- A manifest is inspected by the fields that were written. -/
theorem inspect_dump (h : host.Sound) (hasks : Asks args m)
    (hload : host.load (dump m.asDict) = .ok (.mapping d)) :
    inspect host args d = none := by
  have hget := h.load_dump m hload
  have hkey : isText (d.get? "key") args.expectedKey = true := by
    rw [show d.get? "key" = some (.str m.key) from hget _, hasks.key]
    exact decide_eq_true rfl
  have htarget : clashes args.targetArch (d.get? "target_arch") = false := by
    rw [show d.get? "target_arch" = some (.str m.targetArch) from hget _]
    exact clashes_str hasks.targetArch
  have habi : clashes args.abiVersion (d.get? "abi_version") = false := by
    rw [show d.get? "abi_version" = some (.str m.abiVersion) from hget _]
    exact clashes_str hasks.abiVersion
  rw [inspect, h.fieldText (hget "schema_version"), hasks.schema, hkey, htarget, habi, hasks.guard]
  rfl

theorem payloadName_dump (h : host.Sound) (hload : host.load (dump m.asDict) = .ok (.mapping d)) :
    payloadName d = .ok m.payloadName := by
  have hget := h.load_dump m hload
  have hentry : d.get? "entry_id" = some (.str m.entryId) := hget _
  have hkey : d.get? "key" = some (.str m.key) := hget _
  have hlayer : d.get? "layer" = some (.str m.layer) := hget _
  have hname : d.get? "payload_name" = some (.str m.payloadName) := hget _
  simp [payloadName, hentry, hkey, hlayer, hname]

/-! ### Libraries as expected -/

def byKeys (d : Attrs) : Attrs where
  entries := Payload.sortMembers d.entries
  nodup := (((Payload.sortMembers_perm _).map Prod.fst).nodup_iff).mpr d.nodup

noncomputable def loadManifest (b : Bytes) : Except LoadError Loaded :=
  open Classical in
  if h : ∃ m : EntryManifest, dump m.asDict = b then .ok (.mapping (byKeys h.choose.asDict))
  else .error .malformed

/-- The bytes, as characters, stand for a digest. -/
noncomputable def plainHost : Host where
  sha256 := fun b => String.ofList (b.map fun x => Char.ofNat x.toNat)
  load := loadManifest
  str := fun p =>
    match p with
    | .str s => s
    | _ => ""
  elsewhere := fun _ => none

theorem byKeys_perm (d : Attrs) : (byKeys d).entries.Perm d.entries := Payload.sortMembers_perm _

theorem dump_inj {m' : EntryManifest} (h : dump m.asDict = dump m'.asDict) :
    m.asDict.entries.Perm m'.asDict.entries := by
  have htext := congrArg Utf8.decode h
  rw [dump, dump, Utf8.decode_encode, Utf8.decode_encode, Payload.canonicalJson_inj, Payload.Same,
    Payload.sorted, Payload.sorted, Payload.dict.injEq] at htext
  exact (Payload.sortMembers_perm _).symm.trans
    ((List.Perm.of_eq htext).trans (Payload.sortMembers_perm _))

theorem loadManifest_dump (m : EntryManifest) :
    ∃ d, loadManifest (dump m.asDict) = .ok (.mapping d) ∧ d.entries.Perm m.asDict.entries := by
  have hex : ∃ m' : EntryManifest, dump m'.asDict = dump m.asDict := ⟨m, rfl⟩
  refine ⟨byKeys hex.choose.asDict, ?_, ?_⟩
  · rw [loadManifest, dif_pos hex]
  · exact (byKeys_perm _).trans (dump_inj hex.choose_spec)

theorem plainHost_sound : plainHost.Sound where
  sha256 := by
    intro b b' h
    refine map_injective_iff.mpr (fun x y hxy => ?_) (String.ofList_injective h)
    have hval : ∀ z : UInt8, (Char.ofNat z.toNat).toNat = z.toNat := by
      intro z
      have hlt := z.toNat_lt
      have hvalid : z.toNat.isValidChar := .inl (by omega)
      rw [Char.ofNat, dif_pos hvalid]
      rfl
    have := congrArg Char.toNat hxy
    rw [hval, hval] at this
    exact UInt8.toNat_inj.mp this
  str := fun _ => rfl
  load := loadManifest_dump

end Manifests

variable (host : Host) (entryId : String)

/-- A file of an entry is changed or removed. -/
def tamper (files : Files) (name : String) (content : Option Bytes) : Files :=
  match content with
  | some b => files.set name b
  | none => files.erase name

theorem get?_tamper (files : Files) (name : String) (content : Option Bytes) (name' : String) :
    (tamper files name content).get? name' = if name' = name then content else files.get? name' := by
  cases content with
  | some b => exact get?_set ..
  | none => exact get?_erase ..

def Root.nothing : Root := ⟨none, none, .empty, false⟩

/-! ### Publishing -/

def Writer.inside : Writer → Bool
  | .start | .done | .raised _ => false
  | _ => true

def Writer.run (args : PublishArgs) (n : ℕ) : Root × Writer → Root × Writer :=
  (fun r => r.2.step host entryId args r.1)^[n]

def placedFiles (args : PublishArgs) : Files :=
  (OrderedDict.empty.set PAYLOAD args.payload).set MANIFEST (validatingManifest host entryId args)

def promotedFiles (args : PublishArgs) : Files :=
  (placedFiles host entryId args).set MANIFEST (committedManifest host entryId args)

def committedFiles (args : PublishArgs) : Files :=
  (promotedFiles host entryId args).set MARKER
    (Utf8.encode (finalManifest host entryId args).metadataSha256.toList)

/-- An entry of the first layer. -/
def framePublish (key : String) (payload : Bytes) : PublishArgs :=
  ⟨key, "frame_guard", payload, "", "", "", "", "", ""⟩

theorem framePublish_layer (key : String) (payload : Bytes) :
    (framePublish key payload).layer ∈ CACHE_LAYERS := .head _

/-- What a writer leaves after so many steps, from a root where nothing is in its way. -/
def publishing (args : PublishArgs) (root : Root) : ℕ → Root × Writer :=
  let id := root.freshTemp
  let temps := root.temps.set id .empty
  let temps' := temps.set id (OrderedDict.empty.set PAYLOAD args.payload)
  let temps'' := temps'.set id (placedFiles host entryId args)
  let placed (files : Files) : Root :=
    { root with dir := some files, temps := temps''.erase id, lock := true }
  fun
  | 0 => (root, .start)
  | 1 => ({ root with lock := true }, .locked)
  | 2 => ({ root with temps := temps, lock := true }, .temp id)
  | 3 => ({ root with temps := temps', lock := true }, .written id)
  | 4 => ({ root with temps := temps'', lock := true }, .validated id)
  | 5 => (placed (placedFiles host entryId args), .renamed)
  | 6 => (placed (promotedFiles host entryId args), .promoted)
  | 7 => (placed (committedFiles host entryId args), .committed)
  | _ => ((placed (committedFiles host entryId args)).unlock, .done)

section

variable {host entryId} {args : PublishArgs} {root : Root}

section

variable (hlayer : args.layer ∈ CACHE_LAYERS) (hlock : root.lock = false)
  (hfile : root.isFile MANIFEST = false) (n : ℕ)

include hlayer hlock hfile

theorem step_publishing
    (hdir : n = 4 → Root.replaceable root.dir = true) :
    (publishing host entryId args root n).2.step host entryId args
        (publishing host entryId args root n).1 =
      publishing host entryId args root (n + 1) := by
  match n with
  | 0 => exact Writer.step_start hlayer hlock
  | 1 => exact Writer.step_locked hfile
  | 2 => exact Writer.step_temp (get?_set_self _ _ _)
  | 3 => exact Writer.step_written (get?_set_self _ _ _)
  | 4 => exact Writer.step_validated (get?_set_self _ _ _) (hdir rfl)
  | 5 => exact Writer.step_renamed rfl
  | 6 => exact Writer.step_promoted rfl
  | 7 => rfl
  | n + 8 => rfl

/-- **A writer that nothing stops** goes through all stages. -/
theorem run_eq_publishing
    (hdir : 4 < n → Root.replaceable root.dir = true) :
    Writer.run host entryId args n (root, .start) = publishing host entryId args root n := by
  induction n with
  | zero => rfl
  | succ n ih =>
    rw [Writer.run, Function.iterate_succ_apply', ← Writer.run, ih fun hn => hdir (by omega)]
    exact step_publishing hlayer hlock hfile n fun hn => hdir (by omega)

end

theorem Writer.run_succ (n : ℕ) (root : Root) (pc : Writer) :
    Writer.run host entryId args (n + 1) (root, pc) =
      Writer.run host entryId args n (pc.step host entryId args root) :=
  Function.iterate_succ_apply ..

theorem run_raised (n : ℕ) (root : Root) (e : PublishError) :
    Writer.run host entryId args n (root, .raised e) = (root, .raised e) :=
  Function.iterate_fixed rfl n

end

/-! ### Reading -/

def Reader.run (args : ReadArgs) (n : ℕ) : Root × Reader → Root × Reader :=
  (fun r => r.2.step host args r.1)^[n]

/-- `read` -/
def readCall (args : ReadArgs) (root : Root) : Root × Reader := Reader.run host args 5 (root, .start)

def request (key : String) : ReadArgs where
  expectedKey := key
  targetArch := ""
  abiVersion := ""
  guardCovers := true
  schemaSupported := fun version => version = "1.0.0"

/-- An entry whose files go together. -/
structure Served (root : Root) (text : Bytes) (d : Attrs) (name : String) (payload : Bytes) :
    Prop where
  manifest : root.content MANIFEST = some text
  load : host.load text = .ok (.mapping d)
  marker : root.isFile MARKER = true
  vouched : vouch host d = none
  named : payloadName d = .ok name
  content : payloadContent host root name = some payload
  hash : isText (d.get? "payload_sha256") (host.sha256 payload) = true

/-- How far a reader comes in so many steps, at files that go together. -/
def reading (text : Bytes) (d : Attrs) (name : String) (payload : Bytes) : ℕ → Reader
  | 0 => .start
  | 1 => .found
  | 2 => .parsed text d
  | 3 => .marked text d name
  | 4 => .hashed text name
  | _ => .hit payload text

/-- An entry that is there for whoever asks for this key. -/
def Serves (root : Root) (key : String) : Prop :=
  ∃ text d name payload, Served host root text d name payload ∧
    inspect host (request key) d = none

section

variable {host entryId} {args : ReadArgs} {root : Root} {text : Bytes} {d : Attrs} {name : String}
  {payload : Bytes}

theorem isFile_eq (root : Root) (name : String) : root.isFile name = (root.content name).isSome := by
  cases h : root.dir <;> simp [Root.isFile, Root.content, h]

def Reader.over : Reader → Bool
  | .miss | .reject _ | .hit _ _ | .raised _ => true
  | _ => false

theorem Reader.run_over {pc : Reader} (h : pc.over = true) (n : ℕ) (root : Root) :
    Reader.run host args n (root, pc) = (root, pc) := by
  refine Function.iterate_fixed ?_ n
  cases pc with
  | miss | reject | hit | raised => rfl
  | start | found | parsed | marked | hashed | mismatched => cases h

theorem Reader.run_succ (n : ℕ) (r : Root × Reader) :
    Reader.run host args (n + 1) r = Reader.run host args n (r.2.step host args r.1) :=
  Function.iterate_succ_apply ..

theorem readCall_of_load (hmanifest : root.content MANIFEST = some text)
    (hload : host.load text = .ok (.mapping d)) :
    readCall host args root = Reader.run host args 3 (root,
      match inspect host args d with
      | some reason => .reject reason
      | none => .parsed text d) := by
  have hfile : root.isFile MANIFEST = true := by rw [isFile_eq, hmanifest]; rfl
  rw [readCall, Reader.run_succ, Reader.step, if_pos hfile, Reader.run_succ, Reader.step, hmanifest]
  rcases hinspect : inspect host args d with - | reason <;> simp only [hload, hinspect]

theorem Served.step_reading (h : Served host root text d name payload)
    (hinspect : inspect host args d = none) (n : ℕ) :
    (reading text d name payload n).step host args root =
      (root, reading text d name payload (n + 1)) := by
  match n with
  | 0 =>
    rw [reading, Reader.step, if_pos (by rw [isFile_eq, h.manifest]; rfl)]
    rfl
  | 1 =>
    rw [reading, Reader.step, h.manifest]
    simp only [h.load, hinspect, reading]
  | 2 =>
    rw [reading, Reader.step, h.marker, Bool.not_true, if_neg Bool.false_ne_true]
    simp only [h.vouched, h.named, reading]
  | 3 =>
    rw [reading, Reader.step]
    simp only [h.content, if_pos h.hash, reading]
  | 4 =>
    rw [reading, Reader.step]
    simp only [h.content, reading]
  | n + 5 => rfl

/-- **A request that passes the inspection** hits. -/
theorem Served.hit (h : Served host root text d name payload)
    (hinspect : inspect host args d = none) :
    readCall host args root = (root, .hit payload text) := by
  have hrun : ∀ n, Reader.run host args n (root, .start) = (root, reading text d name payload n) := by
    intro n
    induction n with
    | zero => rfl
    | succ n ih =>
      rw [Reader.run, Function.iterate_succ_apply', ← Reader.run, ih]
      exact h.step_reading hinspect n
  exact hrun 5

/-- **No request raises**, or changes anything. -/
theorem Served.steady (h : Served host root text d name payload) :
    (readCall host args root).1 = root ∧ ∀ e, (readCall host args root).2 ≠ .raised e := by
  cases hinspect : inspect host args d with
  | none =>
    rw [h.hit hinspect]
    exact ⟨rfl, nofun⟩
  | some reason =>
    rw [readCall_of_load h.manifest h.load, hinspect, Reader.run_over rfl]
    exact ⟨rfl, nofun⟩

theorem readCall_of_missing (h : root.isFile MANIFEST = false) :
    readCall host args root = (root, .miss) := by
  rw [readCall, Reader.run_succ, Reader.step, if_neg (by simp [h]), Reader.run_over rfl]

theorem Reader.not_hit {n : ℕ} {root' : Root} {pc : Reader} (hover : pc.over = true)
    (hpc : pc ≠ .hit payload text) : (Reader.run host args n (root', pc)).2 ≠ .hit payload text := by
  rwa [Reader.run_over hover]

theorem not_hit_of_mismatched (n : ℕ) :
    (Reader.run host args (n + 1) (root, .mismatched)).2 ≠ .hit payload text := by
  rw [Reader.run_succ, Reader.step]
  cases root.dir with
  | none => exact Reader.not_hit rfl nofun
  | some files =>
    by_cases hfree : Root.replaceable root.quarantined = true
    · simp only [if_pos hfree]
      exact Reader.not_hit rfl nofun
    · simp only [if_neg hfree]
      exact Reader.not_hit rfl nofun

/-- What a reader that hits has found behind the inspection. -/
theorem served_of_parsed {text' : Bytes} (hmanifest : root.content MANIFEST = some text')
    (hload : host.load text' = .ok (.mapping d))
    (h : (Reader.run host args 3 (root, .parsed text' d)).2 = .hit payload text) :
    text' = text ∧ ∃ name, Served host root text d name payload := by
  rw [Reader.run_succ, Reader.step] at h
  cases hmarker : root.isFile MARKER with
  | false =>
    rw [hmarker] at h
    exact absurd h (Reader.not_hit rfl nofun)
  | true =>
    rw [hmarker, Bool.not_true, if_neg Bool.false_ne_true] at h
    cases hvouch : vouch host d with
    | some reason =>
      rw [hvouch] at h
      exact absurd h (Reader.not_hit rfl nofun)
    | none =>
      rw [hvouch] at h
      cases hname : payloadName d with
      | error e =>
        rw [hname] at h
        exact absurd h (Reader.not_hit rfl nofun)
      | ok name =>
        rw [hname] at h
        rw [Reader.run_succ, Reader.step] at h
        cases hcontent : payloadContent host root name with
        | none =>
          rw [hcontent] at h
          exact absurd h (Reader.not_hit rfl nofun)
        | some b =>
          simp only [hcontent] at h
          by_cases hhash : isText (d.get? "payload_sha256") (host.sha256 b) = true
          · rw [if_pos hhash, Reader.run_succ, Reader.step] at h
            simp only [hcontent] at h
            cases h
            exact ⟨rfl, name, hmanifest, hload, hmarker, hvouch, hname, hcontent, hhash⟩
          · rw [if_neg hhash] at h
            exact absurd h (not_hit_of_mismatched 0)

/-- **What hits is served.** -/
theorem served_of_hit (h : (readCall host args root).2 = .hit payload text) :
    ∃ d name, Served host root text d name payload ∧ inspect host args d = none := by
  cases hmanifest : root.content MANIFEST with
  | none =>
    rw [readCall_of_missing (by rw [isFile_eq, hmanifest]; rfl)] at h
    cases h
  | some text' =>
    have hfile : root.isFile MANIFEST = true := by rw [isFile_eq, hmanifest]; rfl
    cases hload : host.load text' with
    | error e =>
      rw [readCall, Reader.run_succ, Reader.step, if_pos hfile, Reader.run_succ, Reader.step,
        hmanifest] at h
      simp only [hload] at h
      cases e with
      | malformed => exact absurd h (Reader.not_hit rfl nofun)
      | encoding => exact absurd h (Reader.not_hit rfl nofun)
    | ok l =>
      cases l with
      | other =>
        rw [readCall, Reader.run_succ, Reader.step, if_pos hfile, Reader.run_succ, Reader.step,
          hmanifest] at h
        simp only [hload] at h
        exact absurd h (Reader.not_hit rfl nofun)
      | mapping d =>
        rw [readCall_of_load hmanifest hload] at h
        cases hinspect : inspect host args d with
        | some reason =>
          rw [hinspect] at h
          exact absurd h (Reader.not_hit rfl nofun)
        | none =>
          rw [hinspect] at h
          obtain ⟨rfl, name, hserved⟩ := served_of_parsed hmanifest hload h
          exact ⟨d, name, hserved, hinspect⟩

/-- **A manifest that fits the payload** is served, to every request that it answers. -/
theorem served_of_manifest (h : host.Sound) {m : EntryManifest} (hstate : m.state = STATE_COMMITTED)
    (hhash : m.metadataSha256 = "" ∨ m.metadataSha256 = fingerprint host m.asDict)
    (hname : m.payloadName = PAYLOAD) (hpayload : m.payloadSha256 = host.sha256 payload)
    (hmanifest : root.content MANIFEST = some (dump m.asDict))
    (hmarker : (root.content MARKER).isSome = true) (hcontent : root.content PAYLOAD = some payload) :
    ∃ d, Served host root (dump m.asDict) d PAYLOAD payload ∧
      ∀ args, Asks args m → inspect host args d = none := by
  obtain ⟨d, hload, -⟩ := h.load m
  refine ⟨d, ⟨hmanifest, hload, ?_, vouch_dump h hload hstate hhash, ?_, ?_, ?_⟩,
    fun args hasks => inspect_dump h hasks hload⟩
  · rw [isFile_eq]
    exact hmarker
  · rw [payloadName_dump h hload, hname]
  · rw [payloadContent, if_pos (by decide), hcontent]
  · rw [show d.get? "payload_sha256" = some (.str m.payloadSha256) from h.load_dump m hload _,
      hpayload]
    exact decide_eq_true rfl

/-- **A committed entry is served.** -/
theorem served_committed (h : host.Sound) {p : PublishArgs}
    (hdir : root.dir = some (committedFiles host entryId p)) :
    ∃ d, Served host root (committedManifest host entryId p) d PAYLOAD p.payload ∧
      ∀ args, Asks args (finalManifest host entryId p) → inspect host args d = none := by
  have hget : ∀ name, root.content name = (committedFiles host entryId p).get? name := by
    intro name
    rw [Root.content, hdir]
    rfl
  refine served_of_manifest h rfl (.inr (finalManifest_hash p)) rfl rfl ?_ ?_ ?_
  · rw [hget, committedFiles, get?_set_of_ne _ _ (by decide), promotedFiles]
    rfl
  · rw [hget, committedFiles]
    rfl
  · rw [hget, committedFiles, get?_set_of_ne _ _ (by decide), promotedFiles,
      get?_set_of_ne _ _ (by decide), placedFiles,
      get?_set_of_ne _ _ (by decide), get?_set_self]

theorem asks_request (host : Host) (entryId : String) (p : PublishArgs) :
    Asks (request p.key) (finalManifest host entryId p) where
  schema := by simp [request, finalManifest, manifestOf]
  key := rfl
  targetArch := nofun
  abiVersion := nofun
  guard := rfl

theorem serves_committed (h : host.Sound) {p : PublishArgs}
    (hdir : root.dir = some (committedFiles host entryId p)) : Serves host root p.key := by
  obtain ⟨d, hserved, hasks⟩ := served_committed h hdir
  exact ⟨_, d, _, _, hserved, hasks _ (asks_request _ _ p)⟩

end

end EntryStore

end Hqsb.Compiler
