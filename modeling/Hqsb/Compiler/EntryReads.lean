/-
Hqsb/Compiler/EntryReads.lean

What a hit of the compile cache is worth.

A manifest is believed when it has no recorded fingerprint or its own: the marker, which holds the
fingerprint of what was committed, is looked for but not read.  And the payload is read a second
time behind the comparison of its hash.  So hits are right in all runs in which nobody writes a
manifest that is believed, other than the committed one, and the payload does not change under a
reader that has compared its hash (`hit_of_run`).
-/
import Hqsb.Compiler.EntryWorld

namespace Hqsb.Compiler

open Lib List

namespace EntryStore

section

variable {host : Host} {entryId : String}

/-! ### Readers -/

/-- What a step of a reader leaves of the entry. -/
structure Looked (host : Host) (entryId : String) (s : Shelf) (root : Root) : Prop where
  stored : Stored host entryId { s with root := root }
  later : Later s { s with root := root }
  lock : root.lock = s.root.lock
  temps : root.temps = s.root.temps
  dir : root.dir = s.root.dir ∨ root.dir = none

variable {s : Shelf} {files : Files} {args : ReadArgs} {pc : Reader} {i : ℕ} {w : World}
  {name : String}

theorem Looked.same (hs : Stored host entryId s) : Looked host entryId s s.root :=
  ⟨hs, .refl s, rfl, rfl, .inl rfl⟩

theorem Looked.quarantine (hs : Stored host entryId s) (hsafe : Safe s)
    (hdir : s.root.dir = some files) (h : Root.replaceable s.root.quarantined = true) :
    Looked host entryId s { s.root with dir := none, quarantined := some files } := by
  have hfull : Root.replaceable (some files) = false := by
    rw [Root.replaceable, Bool.eq_false_iff]
    exact fun hnil => hs.nonempty files hdir (isEmpty_iff.mp hnil)
  obtain ⟨p, hp, -, howner⟩ : ∃ p ∈ s.completed, Holds s p :=
    hsafe.resolve_left (by simp [h])
  refine ⟨⟨nofun, nofun, nofun, hs.temps⟩, ⟨fun _ hp => hp, ?_, ?_⟩, rfl, rfl, .inr rfl⟩
  · rintro q ⟨-, hq⟩
    rw [howner] at hq
    cases hq
    exact .inl hp
  · intro _
    exact .inl hfull

theorem Reader.step_looked (hs : Stored host entryId s) (hpc : Reading host entryId s args pc) :
    Looked host entryId s (pc.step host args s.root).1 := by
  cases pc with
  | mismatched =>
    rw [Reader.step]
    cases hdir : s.root.dir with
    | none => exact .same hs
    | some files =>
      by_cases h : Root.replaceable s.root.quarantined = true
      · simp only [if_pos h]
        exact .quarantine hs hpc hdir h
      · simp only [if_neg h]
        exact .same hs
  | start | found | parsed | marked | hashed | miss | reject | hit | raised => exact .same hs

/-- **A step of a reader** keeps what it relies on. -/
theorem Reader.step_reading (h : host.Sound) (hs : Stored host entryId s)
    (hpc : Reading host entryId s args pc) :
    Reading host entryId { s with root := (pc.step host args s.root).1 } args
      (pc.step host args s.root).2 := by
  cases pc with
  | start =>
    rw [Reader.step]
    by_cases hfile : s.root.isFile MANIFEST = true
    · rw [if_pos hfile]
      trivial
    · rw [if_neg hfile]
      trivial
  | found =>
    rw [Reader.step]
    cases htext : s.root.content MANIFEST with
    | none => trivial
    | some text =>
      dsimp only
      cases hload : host.load text with
      | error e => cases e <;> trivial
      | ok l =>
        cases l with
        | other => trivial
        | mapping d =>
          dsimp only
          cases hinspect : inspect host args d with
          | some reason => trivial
          | none =>
            refine ⟨hload, hinspect, fun hbelieved => ?_⟩
            obtain ⟨p, howner, heq⟩ := hs.manifest text htext hbelieved
            refine ⟨p, heq, .inr ⟨?_, howner⟩⟩
            obtain ⟨files, hdir, -⟩ := Option.bind_eq_some_iff.mp htext
            simp [hdir]
  | parsed text d =>
    rw [Reader.step]
    obtain ⟨hload, hinspect, hknown⟩ := hpc
    cases hfile : s.root.isFile MARKER with
    | false => trivial
    | true =>
      cases hvouch : vouch host d with
      | some reason => trivial
      | none =>
        cases hname : payloadName d with
        | error e => trivial
        | ok name =>
          obtain ⟨q, hq, howner⟩ := hs.marker hfile
          obtain ⟨p, rfl, hp⟩ := hknown ⟨d, hload, hvouch⟩
          have hcompleted : p ∈ s.completed := by
            rcases hp with hp | ⟨-, hp⟩
            · exact hp
            · -- the marker is the owner's, and so the owner has completed
              rw [howner] at hp
              cases hp
              exact hq
          refine ⟨hload, payloadName_committed h hload hname, .inr ⟨q, hq, ?_, howner⟩, p,
            hcompleted, inspect_committed h hload hinspect, rfl⟩
          obtain ⟨files, hdir, -⟩ := (Option.any_eq_true _ _).mp hfile
          exact hdir ▸ rfl
  | marked text d name =>
    rw [Reader.step]
    obtain ⟨hload, rfl, hsafe, p, hvouched⟩ := hpc
    cases hcontent : payloadContent host s.root PAYLOAD with
    | none => trivial
    | some b =>
      obtain ⟨hp, hkey, rfl⟩ := hvouched
      rw [(committed_fields h hload).2.2]
      by_cases hhash : isText (some (.str (host.sha256 p.payload))) (host.sha256 b) = true
      · simp only [if_pos hhash]
        refine ⟨p, ⟨hp, hkey, rfl⟩, fun b' hb' => ?_⟩
        rw [hcontent] at hb'
        cases hb'
        exact (h.sha256 (isText_str hhash)).symm
      · simp only [if_neg hhash]
        exact hsafe
  | hashed text name =>
    rw [Reader.step]
    obtain ⟨p, ⟨hp, hkey, htext⟩, hpayload⟩ := hpc
    cases hcontent : payloadContent host s.root name with
    | none => trivial
    | some b => exact ⟨p, hp, hkey, (hpayload b hcontent).symm, htext⟩
  | mismatched =>
    rw [Reader.step]
    cases s.root.dir with
    | none => trivial
    | some files => by_cases h : Root.replaceable s.root.quarantined = true <;> simp [h, Reading]
  | miss | reject | raised => trivial
  | hit payload text => exact hpc

/-- What a reader relies on stays, if its payload does. -/
theorem Reading.later {s' : Shelf} (hlater : Later s s') (h : Reading host entryId s args pc)
    (hpayload : ∀ text name, pc = .hashed text name → ∀ b,
      payloadContent host s'.root name = some b → payloadContent host s.root name = some b) :
    Reading host entryId s' args pc := by
  cases pc with
  | parsed text d =>
    obtain ⟨hload, hinspect, hknown⟩ := h
    refine ⟨hload, hinspect, fun hbelieved => ?_⟩
    obtain ⟨p, htext, hp⟩ := hknown hbelieved
    exact ⟨p, htext, hp.elim (fun hp => .inl (hlater.completed p hp)) (hlater.holds p)⟩
  | marked text d name =>
    obtain ⟨hload, hname, hsafe, p, hp, hvouched⟩ := h
    exact ⟨hload, hname, hlater.safe hsafe, p, hlater.completed p hp, hvouched⟩
  | hashed text name =>
    obtain ⟨p, ⟨hp, hvouched⟩, hsame⟩ := h
    exact ⟨p, ⟨hlater.completed p hp, hvouched⟩, fun b hb => hsame b (hpayload text name rfl b hb)⟩
  | mismatched => exact hlater.safe h
  | hit payload text =>
    obtain ⟨p, hp, hright⟩ := h
    exact ⟨p, hlater.completed p hp, hright⟩
  | start | found | miss | reject | raised => trivial

/-! ### Steps and runs -/

/-- A writer relies on little of what readers and tampering touch. -/
theorem Held.of_dir {s' : Shelf} (htemps : s'.root.temps = s.root.temps)
    (howner : s'.owner = s.owner) (hdir : s'.root.dir.isSome = true → s.root.dir.isSome = true)
    {args : PublishArgs} {pc : Writer} (h : Held s args pc) : Held s' args pc := by
  have hplaced : (s.owner = some args ∨ s.root.dir = none) →
      (s'.owner = some args ∨ s'.root.dir = none) := by
    rintro (ho | hd)
    · exact .inl (howner ▸ ho)
    · refine .inr (Option.not_isSome_iff_eq_none.mp fun hsome => ?_)
      have := hdir hsome
      rw [hd] at this
      cases this
  cases pc with
  | validated id => exact fun files hfiles => h files (htemps ▸ hfiles)
  | renamed | promoted => exact hplaced h
  | start | locked | temp | written | committed | done | raised => trivial

theorem Inv.reading (h : Inv host entryId w) (hlater : Later w.toShelf s)
    (hpayload : ∀ i args text name, w.readers i = some (args, .hashed text name) → ∀ b,
      payloadContent host s.root name = some b → payloadContent host w.root name = some b)
    (hr : w.readers i = some (args, pc)) :
    Reading host entryId s args pc :=
  (h.readers i args pc hr).later hlater fun text name hpc => hpayload i args text name (hpc ▸ hr)

theorem Inv.publish (h : Inv host entryId w) (i : ℕ) (args : PublishArgs) :
    Inv host entryId { w with writers := Function.update w.writers i (some (args, .start)) } := by
  refine ⟨h.stored, fun j b pc hj hpc => ?_, h.readers⟩
  have hne : ∀ {k c pc'}, Function.update w.writers i (some (args, .start)) k = some (c, pc') →
      pc'.inside = true → w.writers k = some (c, pc') := by
    intro k c pc' hk hpc'
    by_cases hki : k = i
    · subst hki
      rw [Function.update_self] at hk
      cases hk
      cases hpc'
    · rwa [Function.update_of_ne hki] at hk
  obtain ⟨hheld, hlock, halone⟩ := h.writers j b pc (hne hj hpc) hpc
  exact ⟨hheld, hlock, fun k c pc' hk hpc' => halone k c pc' (hne hk hpc') hpc'⟩

theorem Inv.write (hhost : host.Sound) (h : Inv host entryId w) {args : PublishArgs} {pc : Writer}
    (hi : w.writers i = some (args, pc))
    (hpayload : ∀ i args' text name, w.readers i = some (args', .hashed text name) → ∀ b,
      payloadContent host (w.toShelf.write host entryId args pc).1.root name = some b →
        payloadContent host w.root name = some b) :
    Inv host entryId
      { w with
        toShelf := (w.toShelf.write host entryId args pc).1
        writers := Function.update w.writers i
          (some (args, (w.toShelf.write host entryId args pc).2)) } := by
  have hheld : Held w.toShelf args pc := by
    by_cases hpc : pc.inside = true
    · exact (h.writers i args pc hi hpc).1
    · cases pc with
      | start | done | raised => trivial
      | locked | temp | written | validated | renamed | promoted | committed => exact absurd rfl hpc
  have hwrote := Shelf.write_spec hhost h.stored hheld
  have hlock := Writer.step_lock host entryId args w.root pc
  refine ⟨hwrote.stored, fun j b pc' hj hpc' => ?_,
    fun j b pc' hj => h.reading hwrote.later hpayload hj⟩
  dsimp only at hj ⊢
  by_cases hji : j = i
  · subst hji
    rw [Function.update_self] at hj
    cases hj
    refine ⟨hwrote.held, hlock.1 hpc' fun hpc => (h.writers j args pc hi hpc).2.1, ?_⟩
    intro k c pc'' hk hpc''
    by_contra hkj
    rw [Function.update_of_ne hkj] at hk
    obtain ⟨-, hlocked, halone⟩ := h.writers k c pc'' hk hpc''
    -- somebody else holds the lock, so this one can neither have held nor taken it
    have hout : pc.inside = false := Bool.eq_false_iff.mpr fun hpc => hkj (halone j args pc hi hpc).symm
    exact absurd hlocked (by simp [(hlock.2 hout).1 hpc'])
  · rw [Function.update_of_ne hji] at hj
    obtain ⟨hheld', hlocked, halone⟩ := h.writers j b pc' hj hpc'
    have hout : pc.inside = false := Bool.eq_false_iff.mpr fun hpc => hji (halone i args pc hi hpc).symm
    have hstays : (pc.step host entryId args w.root).2.inside = false := by
      by_contra hin
      exact absurd hlocked (by simp [(hlock.2 hout).1 (by simpa using hin)])
    have hroot : (w.toShelf.write host entryId args pc).1.root = w.root := (hlock.2 hout).2 hstays
    have howner : (w.toShelf.write host entryId args pc).1.owner = w.owner := by
      cases pc with
      | start | done | raised => rfl
      | locked | temp | written | validated | renamed | promoted | committed => cases hout
    refine ⟨hheld'.of_dir (by rw [hroot]) howner (by rw [hroot]; exact id),
      by rw [hroot]; exact hlocked, ?_⟩
    intro k c pc'' hk hpc''
    by_cases hki : k = i
    · subst hki
      rw [Function.update_self] at hk
      cases hk
      exact absurd hpc'' (by simp [Shelf.write, hstays])
    · rw [Function.update_of_ne hki] at hk
      exact halone k c pc'' hk hpc''

theorem Inv.crash (h : Inv host entryId w) {args : PublishArgs} {pc : Writer}
    (hi : w.writers i = some (args, pc)) (releases : Bool) :
    Inv host entryId
      { w with
        root := if releases && pc.inside then w.root.unlock else w.root
        writers := Function.update w.writers i none } := by
  have hroot : ∀ b, Later w.toShelf { w.toShelf with root := { w.root with lock := b } } :=
    fun b => .of_dir rfl rfl rfl rfl
  have hothers : ∀ {k c pc'}, Function.update w.writers i none k = some (c, pc') →
      k ≠ i ∧ w.writers k = some (c, pc') := by
    intro k c pc' hk
    by_cases hki : k = i
    · subst hki
      rw [Function.update_self] at hk
      cases hk
    · exact ⟨hki, by rwa [Function.update_of_ne hki] at hk⟩
  by_cases hreleased : (releases && pc.inside) = true
  · rw [if_pos hreleased]
    refine ⟨⟨h.stored.manifest, h.stored.marker, h.stored.nonempty, h.stored.temps⟩, ?_,
      fun j b pc' hj => (h.readers j b pc' hj).later (hroot false) fun _ _ _ _ hb => hb⟩
    intro j b pc' hj hpc'
    obtain ⟨hji, hj⟩ := hothers hj
    obtain ⟨-, -, halone⟩ := h.writers j b pc' hj hpc'
    exact absurd (halone i args pc hi (by simp_all)).symm hji
  · rw [if_neg hreleased]
    refine ⟨h.stored, ?_, h.readers⟩
    intro j b pc' hj hpc'
    obtain ⟨hheld, hlock, halone⟩ := h.writers j b pc' (hothers hj).2 hpc'
    exact ⟨hheld, hlock, fun k c pc'' hk => halone k c pc'' (hothers hk).2⟩

theorem Inv.read (h : Inv host entryId w) (i : ℕ) (args : ReadArgs) :
    Inv host entryId { w with readers := Function.update w.readers i (some (args, .start)) } := by
  refine ⟨h.stored, h.writers, fun j b pc hj => ?_⟩
  dsimp only at hj
  by_cases hji : j = i
  · subst hji
    rw [Function.update_self] at hj
    cases hj
    trivial
  · rw [Function.update_of_ne hji] at hj
    exact h.readers j b pc hj

theorem Inv.look (hhost : host.Sound) (h : Inv host entryId w)
    (hi : w.readers i = some (args, pc))
    (hpayload : ∀ i args' text name, w.readers i = some (args', .hashed text name) → ∀ b,
      payloadContent host (pc.step host args w.root).1 name = some b →
        payloadContent host w.root name = some b) :
    Inv host entryId
      { w with
        root := (pc.step host args w.root).1
        readers := Function.update w.readers i (some (args, (pc.step host args w.root).2)) } := by
  have hreading := h.readers i args pc hi
  have hlooked := Reader.step_looked h.stored hreading
  refine ⟨hlooked.stored, fun j b pc' hj hpc' => ?_, fun j b pc' hj => ?_⟩
  · obtain ⟨hheld, hlock, halone⟩ := h.writers j b pc' hj hpc'
    refine ⟨Held.of_dir ?_ ?_ ?_ hheld, hlooked.lock.trans hlock, halone⟩
    · exact hlooked.temps
    · rfl
    rcases hlooked.dir with hdir | hdir
    · exact fun hsome => hdir ▸ hsome
    · intro hsome
      rw [hdir] at hsome
      cases hsome
  · dsimp only at hj
    by_cases hji : j = i
    · subst hji
      rw [Function.update_self] at hj
      cases hj
      exact Reader.step_reading hhost h.stored hreading
    · rw [Function.update_of_ne hji] at hj
      exact h.reading hlooked.later hpayload hj

/-- **Tampering** leaves the marker, and whose entry it is. -/
theorem Inv.modify (h : Inv host entryId w) {content : Option Bytes}
    (hname : name ∈ [MANIFEST, PAYLOAD]) (hdir : w.root.dir = some files)
    (hmarker : w.root.isFile MARKER = true)
    (hmanifest : ∀ b, name = MANIFEST → content = some b → Believed host b →
      ∃ args, w.owner = some args ∧ b = committedManifest host entryId args)
    (hpayload : ∀ i args' text name', w.readers i = some (args', .hashed text name') → ∀ b,
      payloadContent host { w.root with dir := some (tamper files name content) } name' = some b →
        payloadContent host w.root name' = some b) :
    Inv host entryId
      { w with root := { w.root with dir := some (tamper files name content) } } := by
  have hcontent : ∀ name', w.root.content name' = files.get? name' := by
    intro name'
    rw [Root.content, hdir]
    rfl
  have hne : MARKER ≠ name := by
    rintro rfl
    exact absurd hname (by decide)
  have hlater : Later w.toShelf
      { w.toShelf with root := { w.root with dir := some (tamper files name content) } } := by
    refine ⟨fun _ hp => hp, fun p hp => .inr ⟨rfl, hp.2⟩, ?_⟩
    rintro (hsafe | ⟨p, hp, -, ho⟩)
    · exact .inl hsafe
    · exact .inr ⟨p, hp, rfl, ho⟩
  refine ⟨⟨?_, fun _ => h.stored.marker hmarker, ?_, h.stored.temps⟩, ?_,
    fun j b pc hj => h.reading hlater hpayload hj⟩
  · intro text htext hbelieved
    replace htext : (tamper files name content).get? MANIFEST = some text := htext
    rw [get?_tamper] at htext
    split_ifs at htext with hmine
    · exact hmanifest text hmine.symm htext hbelieved
    · exact h.stored.manifest text ((hcontent _).trans htext) hbelieved
  · rintro _ ⟨⟩ hnil
    have hkept := get?_tamper files name content MARKER
    rw [if_neg hne, ← hcontent] at hkept
    rw [isFile_eq, ← hkept, OrderedDict.isSome_get?_iff, OrderedDict.keys, hnil] at hmarker
    cases hmarker
  · intro j b pc hj hpc
    obtain ⟨hheld, hlock, halone⟩ := h.writers j b pc hj hpc
    refine ⟨Held.of_dir ?_ ?_ ?_ hheld, hlock, halone⟩
    · rfl
    · rfl
    · exact fun _ => hdir ▸ rfl

/-- **A careful step** keeps the entry, and what everybody relies on. -/
theorem Inv.next (hhost : host.Sound) {w' : World} {a : Action} (h : Inv host entryId w)
    (hcareful : Careful host entryId w a) (hnext : w.next host entryId a = some w') :
    Inv host entryId w' := by
  have hpayload := hcareful.payload w' hnext
  cases a with
  | publish i args =>
    rw [World.next] at hnext
    split_ifs at hnext
    cases hnext
    exact h.publish i args
  | write i =>
    obtain ⟨⟨args, pc⟩, hi, rfl⟩ := Option.map_eq_some_iff.mp hnext
    exact h.write hhost hi hpayload
  | crash i releases =>
    obtain ⟨⟨args, pc⟩, hi, rfl⟩ := Option.map_eq_some_iff.mp hnext
    exact h.crash hi releases
  | read i args =>
    rw [World.next] at hnext
    split_ifs at hnext
    cases hnext
    exact h.read i args
  | look i =>
    obtain ⟨⟨args, pc⟩, hi, rfl⟩ := Option.map_eq_some_iff.mp hnext
    exact h.look hhost hi hpayload
  | modify name content =>
    rw [World.next] at hnext
    split_ifs at hnext with hguard
    obtain ⟨files, hdir, rfl⟩ := Option.map_eq_some_iff.mp hnext
    exact h.modify hguard.1 hdir hguard.2
      (fun b hname hb => hcareful.manifest b (by rw [hname, hb])) hpayload

theorem Inv.empty : Inv host entryId .empty :=
  ⟨⟨nofun, nofun, nofun, nofun⟩, nofun, nofun⟩

theorem Run.inv (hhost : host.Sound) (h : Run host entryId (Careful host entryId) w) :
    Inv host entryId w := by
  induction h with
  | empty => exact .empty
  | step _ hcareful hnext ih => exact ih.next hhost hcareful hnext

/-- **Hits are right** in all careful runs. -/
theorem hit_of_run (hhost : host.Sound) {w : World}
    (h : Run host entryId (Careful host entryId) w) {i : ℕ} {args : ReadArgs}
    {payload text : Bytes} (hhit : w.readers i = some (args, .hit payload text)) :
    Right host entryId w.toShelf args payload text :=
  (h.inv hhost).readers i args _ hhit

/-! ### Careful, and careless -/

theorem Run.imp {allowed allowed' : World → Action → Prop} (h : Run host entryId allowed w)
    (himp : ∀ w a, allowed w a → allowed' w a) :
    Run host entryId allowed' w := by
  induction h with
  | empty => exact .empty
  | step _ hallowed hnext ih => exact ih.step (himp _ _ hallowed) hnext

theorem World.next_write {args : PublishArgs} {pc : Writer} (h : w.writers i = some (args, pc)) :
    w.next host entryId (.write i) = some
      { w with
        toShelf := (w.toShelf.write host entryId args pc).1
        writers := Function.update w.writers i
          (some (args, (w.toShelf.write host entryId args pc).2)) } := by
  rw [World.next, h, Option.map_some]

theorem World.next_look (host : Host) (entryId : String) (h : w.readers i = some (args, pc)) :
    w.next host entryId (.look i) = some
      { w with
        root := (pc.step host args w.root).1
        readers := Function.update w.readers i (some (args, (pc.step host args w.root).2)) } := by
  rw [World.next, h, Option.map_some]

/-- Where everything is allowed, a committed entry is changed. -/
theorem Run.modify (h : Run host entryId (fun _ _ => True) w) (hdir : w.root.dir = some files)
    (hmarker : (files.get? MARKER).isSome = true) (hname : name ∈ [MANIFEST, PAYLOAD])
    (content : Option Bytes) :
    ∃ w', Run host entryId (fun _ _ => True) w' ∧
      w'.root.dir = some (tamper files name content) ∧
      ((tamper files name content).get? MARKER).isSome = true ∧ w'.completed = w.completed ∧
      w'.readers = w.readers := by
  have hfile : w.root.isFile MARKER = true := by
    rw [Root.isFile, hdir]
    exact hmarker
  have hnext : w.next host entryId (.modify name content) = some
      { w with root := { w.root with dir := some (tamper files name content) } } := by
    rw [World.next, if_pos ⟨hname, hfile⟩, hdir, Option.map_some]
  refine ⟨_, h.step trivial hnext, rfl, ?_, rfl, rfl⟩
  have hne : MARKER ≠ name := by
    rintro rfl
    exact absurd hname (by decide)
  rw [get?_tamper, if_neg hne]
  exact hmarker

/-- **A call of `publish`** that nothing stops is careful. -/
theorem run_publish (host : Host) (entryId : String) {args : PublishArgs}
    (hlayer : args.layer ∈ CACHE_LAYERS) (n : ℕ) :
    ∃ w, Run host entryId (Careful host entryId) w ∧
      w.root = (publishing host entryId args .nothing n).1 ∧
      w.writers 0 = some (args, (publishing host entryId args .nothing n).2) ∧
      w.owner = (if 5 ≤ n then some args else none) ∧
      w.completed = (if 7 ≤ n then [args] else []) ∧ w.readers = fun _ => none := by
  induction n with
  | zero =>
    refine ⟨_, .step (a := .publish 0 args) .empty ⟨nofun, nofun⟩ rfl, rfl, ?_, rfl, rfl, rfl⟩
    show Function.update (fun _ => none) 0 _ 0 = _
    exact Function.update_self ..
  | succ n ih =>
    obtain ⟨w, hrun, hroot, hwriter, howner, hcompleted, hreaders⟩ := ih
    have hstep : (publishing host entryId args .nothing n).2.step host entryId args w.root =
        publishing host entryId args .nothing (n + 1) := by
      rw [hroot]
      exact step_publishing hlayer rfl rfl n fun _ => rfl
    refine ⟨_, .step (a := .write 0) hrun ⟨nofun, ?_⟩ (World.next_write hwriter), ?_, ?_, ?_, ?_,
      hreaders⟩
    · rw [hreaders]
      exact nofun
    · exact congrArg Prod.fst hstep
    · show Function.update w.writers 0 _ 0 = _
      exact congrArg (fun r => some (args, r.2)) hstep
    · show (if Writer.placed _ (Writer.step host entryId args w.root _).2 then some args else w.owner) = _
      rw [hstep, howner]
      match n with
      | 0 | 1 | 2 | 3 | 4 | 5 | 6 | 7 | n + 8 => rfl
    · show (if Writer.marked _ (Writer.step host entryId args w.root _).2
        then args :: w.completed else w.completed) = _
      rw [hstep, hcompleted]
      match n with
      | 0 | 1 | 2 | 3 | 4 | 5 | 6 | 7 | n + 8 => rfl

/-- **A call of `read`** at files that go together is careful, and hits. -/
theorem run_read {allowed : World → Action → Prop} (h : Run host entryId allowed w)
    (hallowed : ∀ w a, Careful host entryId w a → allowed w a)
    (hreaders : w.readers = fun _ => none) {text : Bytes} {d : Attrs} {payload : Bytes}
    (hserved : Served host w.root text d name payload) (hinspect : inspect host args d = none)
    (n : ℕ) :
    ∃ w', Run host entryId allowed w' ∧ w'.toShelf = w.toShelf ∧
      w'.readers 0 = some (args, reading text d name payload n) := by
  induction n with
  | zero =>
    have hnext : w.next host entryId (.read 0 args) = some
        { w with readers := Function.update w.readers 0 (some (args, .start)) } := by
      rw [World.next, hreaders]
      rfl
    refine ⟨_, h.step (a := .read 0 args) (hallowed _ _ ⟨nofun, ?_⟩) hnext, rfl, ?_⟩
    · rw [hreaders]
      exact nofun
    · show Function.update w.readers 0 _ 0 = _
      exact Function.update_self ..
  | succ n ih =>
    obtain ⟨w', hrun, hshelf, hreader⟩ := ih
    have hstep := hserved.step_reading hinspect n
    rw [← hshelf] at hstep
    have hnext := World.next_look host entryId hreader
    rw [hstep] at hnext
    refine ⟨_, hrun.step (a := .look 0) (hallowed _ _ ⟨nofun, ?_⟩) hnext, hshelf, ?_⟩
    · intro w'' hw''
      rw [hnext] at hw''
      cases hw''
      exact fun _ _ _ _ _ _ hb => hb
    · show Function.update w'.readers 0 _ 0 = _
      exact Function.update_self ..

end

/-- A published entry is read as it was published. -/
theorem published_entry_hits :
    ∃ w, Run plainHost "e" (Careful plainHost "e") w ∧
      Right plainHost "e" w.toShelf (request "k") [1]
        (committedManifest plainHost "e" (framePublish "k" [1])) := by
  obtain ⟨w, hrun, hroot, -, -, -, hreaders⟩ :=
    run_publish plainHost "e" (framePublish_layer "k" [1]) 8
  have hdir : w.root.dir = some (committedFiles plainHost "e" (framePublish "k" [1])) := by
    rw [hroot]
    rfl
  obtain ⟨d, hserved, hasks⟩ := served_committed plainHost_sound hdir
  obtain ⟨w', hrun', -, hhit⟩ := run_read hrun (fun _ _ h => h) hreaders hserved
    (hasks _ (asks_request _ _ _)) 5
  exact ⟨w', hrun', hit_of_run plainHost_sound hrun' hhit⟩

/-- A manifest for another payload, without a recorded fingerprint. -/
noncomputable def forgedManifest : EntryManifest :=
  { finalManifest plainHost "e" (framePublish "k" [1]) with
    payloadSha256 := plainHost.sha256 [2]
    metadataSha256 := "" }

/-- **A forged entry hits**: the payload was never published. -/
theorem forged_entry_hits :
    ¬ ∀ w, Run plainHost "e" (fun _ _ => True) w → ∀ i args payload text,
      w.readers i = some (args, .hit payload text) →
        Right plainHost "e" w.toShelf args payload text := by
  intro hall
  obtain ⟨w, hrun, hroot, -, -, hcompleted, hreaders⟩ :=
    run_publish plainHost "e" (framePublish_layer "k" [1]) 8
  have hdir : w.root.dir = some (committedFiles plainHost "e" (framePublish "k" [1])) := by
    rw [hroot]
    rfl
  have hmarker : ((committedFiles plainHost "e" (framePublish "k" [1])).get? MARKER).isSome = true := by
    rfl
  obtain ⟨w', hrun', hdir', hmarker', hcompleted', hreaders'⟩ :=
    Run.modify (hrun.imp fun _ _ _ => trivial) hdir hmarker (.head _ (a := MANIFEST))
      (some (dump forgedManifest.asDict))
  obtain ⟨w'', hrun'', hdir'', hmarker'', hcompleted'', hreaders''⟩ :=
    hrun'.modify hdir' hmarker' (mem_cons_of_mem MANIFEST (mem_singleton_self PAYLOAD))
      (some [2])
  have hcontent : ∀ name, w''.root.content name = (if name = PAYLOAD then some [2]
      else if name = MANIFEST then some (dump forgedManifest.asDict)
      else (committedFiles plainHost "e" (framePublish "k" [1])).get? name) := by
    intro name
    rw [Root.content, hdir'', Option.bind_some, get?_tamper, get?_tamper]
  obtain ⟨d, hserved,
  hasks⟩ := served_of_manifest plainHost_sound (m := forgedManifest) rfl (.inl rfl)
    rfl rfl (hcontent MANIFEST) (by rw [hcontent]; exact hmarker) (hcontent PAYLOAD)
  have hasked : Asks (request "k") forgedManifest := by
    obtain ⟨hschema, hkey, htarget, habi, hguard⟩ := asks_request plainHost "e" (framePublish "k" [1])
    exact ⟨hschema, hkey, htarget, habi, hguard⟩
  obtain ⟨v, hread, hshelf, hhit⟩ := run_read hrun'' (fun _ _ _ => trivial)
    (hreaders''.trans (hreaders'.trans hreaders)) hserved (hasks _ hasked) 5
  obtain ⟨p, hp, -, hpayload, -⟩ := hall v hread 0 _ _ _ hhit
  rw [hshelf, hcompleted'', hcompleted', hcompleted] at hp
  rw [mem_singleton.mp hp] at hpayload
  cases hpayload

end EntryStore

end Hqsb.Compiler
