/-
Hqsb/Lib/Paging.lean

Reading a growing log page by page.

The entries of a log carry rising numbers.  A reader asks for the entries behind
its cursor, at most `limit` of them, and moves the cursor to the last one it got.
Between two pages the log may grow at its end.

`Reader.Exact` is what such a reader can rely on: what it has read is the part of
the log between the cursor it started from and the one it is at.  It survives
growth (`Exact.append`) and is carried on by every page (`Exact.page`).  A page
with a limit other than zero moves the cursor whenever there is something behind
it (`cursor_lt_page`).
-/
import Mathlib

namespace Lib

open List

variable {α : Type*} (seq : α → ℤ)

def Rising (log : List α) : Prop := log.Pairwise fun x y => seq x < seq y

/-- The entries behind `cursor`. -/
def behind (cursor : ℤ) (log : List α) : List α := log.filter fun x => cursor < seq x

/-- The entries behind `a`, up to `b`. -/
def between (a b : ℤ) (log : List α) : List α := log.filter fun x => a < seq x ∧ seq x ≤ b

/-- The first `limit` entries; a negative limit is none. -/
def firstOf (limit : ℤ) (log : List α) : List α :=
  if limit < 0 then log else log.take limit.toNat

def page (cursor limit : ℤ) (log : List α) : List α := firstOf limit (behind seq cursor log)

/-- The number of the last entry of a page, or where the reader was. -/
def lastSeq (cursor : ℤ) (entries : List α) : ℤ := entries.foldl (fun _ x => seq x) cursor

variable {seq}

/-! ### Parts of a log -/

theorem firstOf_isPrefixOf (limit : ℤ) (log : List α) : firstOf limit log <+: log := by
  rw [firstOf]
  split_ifs
  · exact prefix_refl _
  · exact take_prefix _ _

variable {log : List α} {x : α}

theorem firstOf_eq_nil_iff {limit : ℤ} (hlimit : limit ≠ 0) :
    firstOf limit log = [] ↔ log = [] := by
  rw [firstOf]
  split_ifs with h
  · exact Iff.rfl
  · rw [take_eq_nil_iff]
    refine or_iff_right fun h0 => hlimit ?_
    omega

theorem mem_behind {cursor : ℤ} :
    x ∈ behind seq cursor log ↔ x ∈ log ∧ cursor < seq x := by simp [behind]

theorem between_self (a : ℤ) (log : List α) : between seq a a log = [] :=
  filter_eq_nil_iff.mpr fun x _ => by simp

/-- A part that reaches past the last entry is everything behind its start. -/
theorem between_eq_behind {a b : ℤ} (h : ∀ x ∈ log, seq x ≤ b) :
    between seq a b log = behind seq a log := by
  refine filter_congr fun x hx => ?_
  simp [h x hx]

theorem Rising.behind (h : Rising seq log) (cursor : ℤ) :
    Rising seq (behind seq cursor log) := List.Pairwise.filter _ h

theorem Rising.append (h : Rising seq log) (hx : ∀ y ∈ log, seq y < seq x) :
    Rising seq (log ++ [x]) := by
  refine pairwise_append.mpr ⟨h, pairwise_singleton _ _, fun y hy z hz => ?_⟩
  obtain rfl := mem_singleton.mp hz
  exact hx y hy

/-- Two neighbouring parts are one. -/
theorem between_append_between (h : Rising seq log) {a b c : ℤ} (hab : a ≤ b) (hbc : b ≤ c) :
    between seq a b log ++ between seq b c log = between seq a c log := by
  induction log with
  | nil => rfl
  | cons x log ih =>
    obtain ⟨hx, hlog⟩ := pairwise_cons.mp h
    by_cases hb : seq x ≤ b
    · -- the head lies in the first part or in none
      have hnot : ¬ b < seq x := not_lt.mpr hb
      have hc : seq x ≤ c := hb.trans hbc
      by_cases ha : a < seq x
      · simpa [between, hb, hnot, hc, ha] using ih hlog
      · simpa [between, hb, hnot, hc, ha] using ih hlog
    · -- the first part is empty
      have hempty : between seq a b (x :: log) = [] := by
        refine filter_eq_nil_iff.mpr fun y hy => ?_
        rcases mem_cons.mp hy with rfl | hy
        · simp [hb]
        · have := hx y hy
          rw [decide_eq_true_eq]
          omega
      rw [hempty]
      refine filter_congr fun y hy => ?_
      have hy' : b < seq y := by
        rcases mem_cons.mp hy with rfl | hy
        · exact not_le.mp hb
        · have := hx y hy
          omega
      simp [hy', lt_of_le_of_lt hab hy']

/-! ### The last entry of a page -/

theorem lastSeq_concat (cursor : ℤ) (entries : List α) (x : α) :
    lastSeq seq cursor (entries ++ [x]) = seq x := by simp [lastSeq]

variable (seq) in
theorem lastSeq_eq (cursor : ℤ) (entries : List α) :
    entries = [] ∧ lastSeq seq cursor entries = cursor ∨
      ∃ x ∈ entries, lastSeq seq cursor entries = seq x := by
  rcases eq_nil_or_concat entries with rfl | ⟨init, x, rfl⟩
  · exact .inl ⟨rfl, rfl⟩
  · exact .inr ⟨x, by simp, by rw [concat_eq_append, lastSeq_concat]⟩

theorem Rising.le_lastSeq {entries : List α} (h : Rising seq entries) (cursor : ℤ)
    (hx : x ∈ entries) : seq x ≤ lastSeq seq cursor entries := by
  rcases eq_nil_or_concat entries with rfl | ⟨init, y, rfl⟩
  · cases hx
  · rw [concat_eq_append] at *
    rw [lastSeq_concat]
    rcases mem_append.mp hx with hx | hx
    · exact (pairwise_append.mp h).2.2 x hx y (by simp) |>.le
    · rw [mem_singleton.mp hx]

/-- **A page is a part of the log**: from the cursor to the page's own last entry. -/
theorem page_eq_between (h : Rising seq log) (cursor limit : ℤ) : page seq cursor limit log =
      between seq cursor (lastSeq seq cursor (page seq cursor limit log)) log := by
  obtain ⟨rest, hrest⟩ := firstOf_isPrefixOf limit (behind seq cursor log)
  change page seq cursor limit log ++ rest = _ at hrest
  have hbehind : Rising seq (page seq cursor limit log ++ rest) := hrest ▸ h.behind cursor
  obtain ⟨hpage, -, hcross⟩ := pairwise_append.mp hbehind
  generalize page seq cursor limit log = p at *
  have hlow : p.filter (fun x => decide (seq x ≤ lastSeq seq cursor p)) = p :=
    filter_eq_self.mpr fun x hx => decide_eq_true (Rising.le_lastSeq hpage cursor hx)
  have hhigh : rest.filter (fun x => decide (seq x ≤ lastSeq seq cursor p)) = [] := by
    refine filter_eq_nil_iff.mpr fun x hx => ?_
    have hlast : lastSeq seq cursor p < seq x := by
      rcases lastSeq_eq seq cursor p with ⟨-, hl⟩ | ⟨y, hy, hl⟩
      · rw [hl]
        exact (mem_behind.mp (hrest ▸ mem_append_right p hx)).2
      · rw [hl]
        exact hcross y hy x hx
    simpa using hlast
  have hsplit : between seq cursor (lastSeq seq cursor p) log
      = (behind seq cursor log).filter fun x => decide (seq x ≤ lastSeq seq cursor p) := by
    rw [behind, filter_filter]
    exact filter_congr fun x _ => (Bool.decide_and _ _).trans (Bool.and_comm _ _)
  rw [hsplit, ← hrest, filter_append, hlow, hhigh, append_nil]

/-! ### Readers -/

structure Reader (α : Type*) where
  cursor : ℤ
  read : List α

namespace Reader

def start (α : Type*) (cursor : ℤ) : Reader α := ⟨cursor, []⟩

variable (seq) in
def take (r : Reader α) (entries : List α) : Reader α :=
  ⟨lastSeq seq r.cursor entries, r.read ++ entries⟩

variable (seq) in
/-- The reader has read exactly the part of the log from `a` to its cursor. -/
structure Exact (a : ℤ) (log : List α) (r : Reader α) : Prop where
  read : r.read = between seq a r.cursor log
  le : a ≤ r.cursor
  at_entry : r.cursor = a ∨ ∃ x ∈ log, seq x = r.cursor

variable {a limit : ℤ} {log : List α} {r : Reader α}

theorem exact_start (a : ℤ) (log : List α) : Exact seq a log (start α a) :=
  ⟨(between_self a log).symm, le_rfl, .inl rfl⟩

/-- Growth of the log behind its last entry is not noticed. -/
theorem Exact.append (h : Exact seq a log r) {x : α} (hx : ∀ y ∈ log, seq y < seq x) :
    Exact seq a (log ++ [x]) r := by
  have hout : ¬ (a < seq x ∧ seq x ≤ r.cursor) := by
    rintro ⟨hax, hxr⟩
    rcases h.at_entry with hr | ⟨y, hy, hr⟩
    · omega
    · have := hx y hy
      omega
  refine ⟨?_, h.le, h.at_entry.imp_right ?_⟩
  · rw [h.read, between, between]
    simp [hout]
  · rintro ⟨y, hy, hr⟩
    exact ⟨y, mem_append_left _ hy, hr⟩

/-- **Paging**: the next page carries the reading on without a gap or a repetition. -/
theorem Exact.page (h : Exact seq a log r) (hlog : Rising seq log) (limit : ℤ) :
    Exact seq a log (r.take seq (Lib.page seq r.cursor limit log)) := by
  have hpage := page_eq_between hlog r.cursor limit
  have hmem : ∀ x ∈ Lib.page seq r.cursor limit log, x ∈ log ∧ r.cursor < seq x := fun x hx =>
    mem_behind.mp ((firstOf_isPrefixOf limit _).subset hx)
  have hle : r.cursor ≤ lastSeq seq r.cursor (Lib.page seq r.cursor limit log) := by
    rcases lastSeq_eq seq r.cursor (Lib.page seq r.cursor limit log)
      with ⟨-, hl⟩ | ⟨x, hx, hl⟩
    · exact hl.ge
    · exact hl ▸ (hmem x hx).2.le
  refine ⟨?_, h.le.trans hle, ?_⟩
  · show r.read ++ _ = between seq a (lastSeq seq r.cursor _) log
    rw [← between_append_between hlog h.le hle, ← hpage, ← h.read]
  · rcases lastSeq_eq seq r.cursor (Lib.page seq r.cursor limit log)
      with ⟨-, hl⟩ | ⟨x, hx, hl⟩
    · simpa only [take, hl] using h.at_entry
    · exact .inr ⟨x, (hmem x hx).1, hl.symm⟩

/-- A reader at or past the last entry has read everything behind its start. -/
theorem Exact.complete (h : Exact seq a log r) (hend : ∀ x ∈ log, seq x ≤ r.cursor) :
    r.read = behind seq a log := h.read.trans (between_eq_behind hend)

/-- A page moves the cursor when something lies behind it. -/
theorem cursor_lt_page (r : Reader α) (hlimit : limit ≠ 0) {x : α} (hx : x ∈ log)
    (hlt : r.cursor < seq x) :
    r.cursor < (r.take seq (Lib.page seq r.cursor limit log)).cursor := by
  have hmem : ∀ y ∈ Lib.page seq r.cursor limit log, r.cursor < seq y := fun y hy =>
    (mem_behind.mp ((firstOf_isPrefixOf limit _).subset hy)).2
  rcases lastSeq_eq seq r.cursor (Lib.page seq r.cursor limit log)
    with ⟨hnil, -⟩ | ⟨y, hy, hl⟩
  · have hbehind := (firstOf_eq_nil_iff hlimit).mp hnil
    have hin : x ∈ behind seq r.cursor log := mem_behind.mpr ⟨hx, hlt⟩
    rw [hbehind] at hin
    cases hin
  · show r.cursor < lastSeq seq r.cursor _
    rw [hl]
    exact hmem y hy

/-- What lies behind the cursor gets less when the cursor passes an entry. -/
theorem length_behind_lt {b c : ℤ} (hbc : b ≤ c) {x : α} (hx : x ∈ log) (hb : b < seq x)
    (hc : seq x ≤ c) : (behind seq c log).length < (behind seq b log).length := by
  have hpart : behind seq c log = (behind seq b log).filter fun y => c < seq y := by
    rw [behind, behind, filter_filter]
    refine filter_congr fun y _ => ?_
    by_cases hy : c < seq y
    · simp [hy, lt_of_le_of_lt hbc hy]
    · simp [hy]
  rw [hpart]
  exact length_filter_lt_length_iff_exists.mpr
    ⟨x, mem_behind.mpr ⟨hx, hb⟩, by simpa using hc⟩

/-- A page with a limit other than zero leaves less behind the cursor, or nothing is left. -/
theorem length_behind_page_lt (r : Reader α) (hlimit : limit ≠ 0)
    (hne : behind seq r.cursor log ≠ []) :
    (behind seq (r.take seq (Lib.page seq r.cursor limit log)).cursor log).length
      < (behind seq r.cursor log).length := by
  obtain ⟨x, hx⟩ := exists_mem_of_ne_nil _ hne
  obtain ⟨hxlog, hlt⟩ := mem_behind.mp hx
  have hmoved := cursor_lt_page r hlimit hxlog hlt
  rcases lastSeq_eq seq r.cursor (Lib.page seq r.cursor limit log)
    with ⟨-, hl⟩ | ⟨y, hy, hl⟩
  · exact absurd hl hmoved.ne'
  · obtain ⟨hylog, hylt⟩ := mem_behind.mp ((firstOf_isPrefixOf limit _).subset hy)
    exact length_behind_lt hmoved.le hylog hylt hl.ge

theorem behind_eq_nil {c : ℤ} (h : behind seq c log = []) {x : α} (hx : x ∈ log) : seq x ≤ c := by
  by_contra hlt
  have hin : x ∈ behind seq c log := mem_behind.mpr ⟨hx, not_le.mp hlt⟩
  rw [h] at hin
  cases hin

variable (seq) in
def readPages (log : List α) (r : Reader α) (limits : List ℤ) : Reader α :=
  limits.foldl (fun r limit => r.take seq (Lib.page seq r.cursor limit log)) r

/-- **Enough pages read everything.** -/
theorem Exact.readPages (h : Exact seq a log r) (hlog : Rising seq log) {limits : List ℤ}
    (hlimits : ∀ limit ∈ limits, limit ≠ 0)
    (hlen : (behind seq r.cursor log).length ≤ limits.length) :
    (readPages seq log r limits).read = behind seq a log := by
  induction limits generalizing r with
  | nil =>
    have hnil : behind seq r.cursor log = [] := length_eq_zero_iff.mp (Nat.le_zero.mp hlen)
    exact h.complete fun x hx => behind_eq_nil hnil hx
  | cons limit limits ih =>
    have hlimit : limit ≠ 0 := hlimits limit mem_cons_self
    apply ih (h.page hlog limit) fun l hl => hlimits l (.tail _ hl)
    by_cases hne : behind seq r.cursor log = []
    · -- nothing is left, so the page is empty
      have hpage : Lib.page seq r.cursor limit log = [] :=
        (firstOf_eq_nil_iff hlimit).mpr hne
      have hcursor : (r.take seq (Lib.page seq r.cursor limit log)).cursor = r.cursor := by
        rw [hpage]
        rfl
      rw [hcursor, hne]
      exact Nat.zero_le _
    · have hlt := length_behind_page_lt r hlimit hne
      rw [length_cons] at hlen
      omega

end Reader

end Lib
