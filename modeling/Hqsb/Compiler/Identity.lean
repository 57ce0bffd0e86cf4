/-
Hqsb/Compiler/Identity.lean

The canonicaliser in front of every content hash.

`canonicalize_payload` goes through the data by ascending keys, drops the members with a noise key
and replaces, inside strings, literal addresses and words that look like temporary names.  It says
which paths it touched.  `content_hash` is the digest of the canonical text.

Two contents have one digest exactly when the canonicaliser makes the same of them
(`contentHash_eq_iff`).
-/
import Hqsb.Compiler.Payload

namespace Hqsb.Compiler

open List

/-! ### The canonicaliser -/

/-- What `\w` and `\d` of a regular expression match. -/
structure Alphabet where
  word : Char → Bool
  digit : Char → Bool
  word_of_ascii : ∀ c : Char, (c.isAlphanum || c = '_') = true → word c = true

def ascii : Alphabet where
  word := fun c => c.isAlphanum || c = '_'
  digit := Char.isDigit
  word_of_ascii := fun _ => id

def NOISE_KEYS : List String :=
  ["created_at", "written_at", "timestamp", "host_clock", "address", "addr", "ptr", "pointer",
    "temp_name", "tmp_path", "temp_path", "absolute_path", "output_root", "pid", "duration_us",
    "elapsed_us", "_path"]

def isHexDigit (c : Char) : Bool :=
  c.isDigit || ('a' ≤ c && c ≤ 'f') || ('A' ≤ c && c ≤ 'F')

/-- `_ADDRESS_RE.sub("0xADDR", …)`; in `skipping` mode the digits of an address are left out. -/
def normaliseAddresses : Bool → List Char → List Char
  | _, [] => []
  | skipping, c :: t =>
    if skipping && isHexDigit c then normaliseAddresses true t
    else
      match t with
      | [] => [c]
      | d :: t' =>
        if c = '0' ∧ d = 'x' ∧ 4 ≤ (t'.takeWhile isHexDigit).length then
          "0xADDR".toList ++ normaliseAddresses true t'
        else c :: normaliseAddresses false (d :: t')

/-- `tmp|temp|t\d+|_t\d+` -/
def isTempName (alphabet : Alphabet) (w : List Char) : Bool :=
  let numbered : List Char → Bool
    | 't' :: digits => !digits.isEmpty && digits.all alphabet.digit
    | _ => false
  w == "tmp".toList || w == "temp".toList || numbered w ||
    match w with
    | '_' :: w => numbered w
    | _ => false

/-- `_TEMP_NAME_RE.sub("TMP", …)`: between two word boundaries stands a whole run of word
characters, so the runs are replaced one by one. -/
def normaliseTempNames (alphabet : Alphabet) (t : List Char) : List Char :=
  (t.splitBy fun c d => alphabet.word c == alphabet.word d).flatMap fun w =>
    if isTempName alphabet w then "TMP".toList else w

/-- What the canonicaliser makes of a string. -/
def cleaned (alphabet : Alphabet) (s : String) : String :=
  String.ofList (normaliseTempNames alphabet (normaliseAddresses false s.toList))

section

variable (alphabet : Alphabet) (noise : List String)

mutual

/-- `_walk`, through members that stand in order. -/
def walk : Payload → Payload
  | .null => .null
  | .bool b => .bool b
  | .int n => .int n
  | .float x => .float x
  | .str s => .str (cleaned alphabet s)
  | .list items => .list (walkItems items)
  | .dict members => .dict (walkMembers members)

def walkItems : List Payload → List Payload
  | [] => []
  | p :: items => walk p :: walkItems items

def walkMembers : List (String × Payload) → List (String × Payload)
  | [] => []
  | (key, p) :: members =>
    if key ∈ noise then walkMembers members else (key, walk p) :: walkMembers members

end

mutual

/-- The paths that `_walk` reports. -/
def strippedAt (path : String) : Payload → List String
  | .null | .bool _ | .int _ | .float _ => []
  | .str s => if cleaned alphabet s ≠ s then [path ++ ":normalised"] else []
  | .list items => strippedItems path 0 items
  | .dict members => strippedMembers path members

def strippedItems (path : String) (index : Nat) : List Payload → List String
  | [] => []
  | p :: items =>
    strippedAt (path ++ "[" ++ toString index ++ "]") p ++ strippedItems path (index + 1) items

def strippedMembers (path : String) : List (String × Payload) → List String
  | [] => []
  | (key, p) :: members =>
    let child := if path ≠ "" then path ++ "." ++ key else key
    (if key ∈ noise then [child] else strippedAt child p) ++ strippedMembers path members

end

def canonicalizePayload (p : Payload) : Payload × List String :=
  (walk alphabet noise p.sorted, strippedAt alphabet noise "" p.sorted)

/-- What is left of the data. -/
def canonical (p : Payload) : Payload := (canonicalizePayload alphabet noise p).1

/-- `content_hash`, for a digest of texts. -/
def contentHash {D : Type*} (sha256 : List Char → D) (p : Payload) : D × List String :=
  let (canonical, stripped) := canonicalizePayload alphabet noise p
  (sha256 canonical.canonicalJson, stripped)

end

/-! ### Induction over data -/

namespace Payload

section Induction

variable {P : Payload → Prop} (hnull : P .null) (hbool : ∀ b, P (.bool b)) (hint : ∀ n, P (.int n))
  (hfloat : ∀ x, P (.float x)) (hstr : ∀ s, P (.str s))
  (hlist : ∀ items, (∀ p ∈ items, P p) → P (.list items))
  (hdict : ∀ members, (∀ m ∈ members, P m.2) → P (.dict members))

include hnull hbool hint hfloat hstr hlist hdict

set_option linter.unusedSectionVars false

mutual

theorem induction : ∀ p, P p
  | .null => hnull
  | .bool b => hbool b
  | .int n => hint n
  | .float x => hfloat x
  | .str s => hstr s
  | .list items => hlist items (induction_items items)
  | .dict members => hdict members (induction_members members)

theorem induction_items : ∀ (items : List Payload), ∀ p ∈ items, P p
  | [], _, h => absurd h not_mem_nil
  | q :: items, p, h => by
    rcases mem_cons.mp h with hpq | h
    · exact hpq ▸ induction q
    · exact induction_items items p h

theorem induction_members : ∀ (members : List (String × Payload)), ∀ m ∈ members, P m.2
  | [], _, h => absurd h not_mem_nil
  | (key, q) :: members, m, h => by
    rcases mem_cons.mp h with hmq | h
    · exact hmq ▸ induction q
    · exact induction_members members m h

end

end Induction

theorem sortedItems_eq (items : List Payload) : sortedItems items = items.map sorted := by
  induction items with
  | nil => rfl
  | cons p items ih => rw [sortedItems, ih, map_cons]

theorem sortedMembers_eq (members : List (String × Payload)) :
    sortedMembers members = members.map fun m => (m.1, m.2.sorted) := by
  induction members with
  | nil => rfl
  | cons m members ih => rw [sortedMembers, ih, map_cons]

theorem sortMembers_of_sorted {α : Type*} {members : List (String × α)}
    (h : (members.map Prod.fst).Pairwise (· ≤ ·)) : sortMembers members = members := by
  apply List.Pairwise.insertionSort_eq
  exact pairwise_map.mp h

theorem sortMembers_sorted {α : Type*} (members : List (String × α)) :
    ((sortMembers members).map Prod.fst).Pairwise (· ≤ ·) := by
  have htotal : Std.Total fun m n : String × α => m.1 ≤ n.1 := ⟨fun m n => le_total m.1 n.1⟩
  have htrans : IsTrans (String × α) fun m n => m.1 ≤ n.1 := ⟨fun _ _ _ h h' => h.trans h'⟩
  exact pairwise_map.mpr (pairwise_insertionSort (fun m n : String × α => m.1 ≤ n.1) members)

theorem sortMembers_map {α β : Type*} (f : String × α → β) (members : List (String × α)) :
    sortMembers (members.map fun m => (m.1, f m)) =
      (sortMembers members).map fun m => (m.1, f m) := by
  rw [sortMembers, sortMembers, map_insertionSort _ (fun m n : String × β => m.1 ≤ n.1) _ _
    fun _ _ _ _ => Iff.rfl]

theorem mem_sortMembers {α : Type*} {members : List (String × α)} {m : String × α} :
    m ∈ sortMembers members ↔ m ∈ members := mem_insertionSort _

end Payload

/-! ### What the canonicaliser leaves -/

section

variable {alphabet : Alphabet} {noise : List String}

theorem walkItems_eq (items : List Payload) :
    walkItems alphabet noise items = items.map (walk alphabet noise) := by
  induction items with
  | nil => rfl
  | cons p items ih => rw [walkItems, ih, map_cons]

theorem walkMembers_eq (members : List (String × Payload)) : walkMembers alphabet noise members =
      (members.filter fun m => m.1 ∉ noise).map fun m => (m.1, walk alphabet noise m.2) := by
  induction members with
  | nil => rfl
  | cons m members ih =>
    rw [walkMembers, ih]
    split_ifs with hnoise
    · rw [filter_cons_of_neg (by simpa using hnoise)]
    · rw [filter_cons_of_pos (by simpa using hnoise), map_cons]

theorem canonical_list (items : List Payload) :
    canonical alphabet noise (.list items) = .list (items.map (canonical alphabet noise)) := by
  show walk alphabet noise (Payload.sorted _) = _
  rw [Payload.sorted, walk, Payload.sortedItems_eq, walkItems_eq, map_map]
  rfl

/-- What is left of a mapping, by what is left of its members. -/
theorem canonical_dict (members : List (String × Payload)) :
    canonical alphabet noise (.dict members) =
      .dict ((Payload.sortMembers (members.map fun m => (m.1, canonical alphabet noise m.2))).filter
        fun m => m.1 ∉ noise) := by
  show walk alphabet noise (Payload.sorted _) = _
  rw [Payload.sorted, walk, walkMembers_eq, Payload.sortedMembers_eq, Payload.sortMembers_map,
    Payload.sortMembers_map fun m => canonical alphabet noise m.2, filter_map, filter_map, map_map]
  rfl

/-- **The canonicaliser leaves mappings in order.** -/
theorem sorted_walk (p : Payload) :
    (walk alphabet noise p.sorted).sorted = walk alphabet noise p.sorted := by
  induction p using Payload.induction with
  | hnull => rfl
  | hbool b => rfl
  | hint n => rfl
  | hfloat x => rfl
  | hstr s => rfl
  | hlist items ih =>
    simp only [Payload.sorted, walk, Payload.sortedItems_eq, walkItems_eq, map_map]
    exact congrArg Payload.list (map_congr_left ih)
  | hdict members ih =>
    have hmap : ∀ m ∈ Payload.sortMembers (Payload.sortedMembers members),
        (walk alphabet noise m.2).sorted = walk alphabet noise m.2 := by
      intro m hm
      rw [Payload.mem_sortMembers, Payload.sortedMembers_eq] at hm
      obtain ⟨m', hm', rfl⟩ := mem_map.mp hm
      exact ih m' hm'
    have hkeys := Payload.sortMembers_sorted (Payload.sortedMembers members)
    rw [Payload.sorted]
    generalize Payload.sortMembers (Payload.sortedMembers members) = ms at hmap hkeys ⊢
    let kept := ms.filter fun m => m.1 ∉ noise
    have hsorted : ((kept.map fun m => (m.1, walk alphabet noise m.2)).map Prod.fst).Pairwise
        (· ≤ ·) := by
      rw [map_map]
      exact hkeys.sublist (filter_sublist.map Prod.fst)
    have hsame : (kept.map fun m => (m.1, (walk alphabet noise m.2).sorted)) =
        kept.map fun m => (m.1, walk alphabet noise m.2) :=
      map_congr_left fun m hm => by rw [hmap m (mem_of_mem_filter hm)]
    rw [walk, walkMembers_eq, Payload.sorted, Payload.sortedMembers_eq, map_map]
    exact congrArg Payload.dict
      ((congrArg Payload.sortMembers hsame).trans (Payload.sortMembers_of_sorted hsorted))

/-- **Digests**: one digest means that the canonicaliser makes the same of both. -/
theorem contentHash_eq_iff {D : Type*} {sha256 : List Char → D} (hsha : sha256.Injective)
    {p q : Payload} :
    (contentHash alphabet noise sha256 p).1 = (contentHash alphabet noise sha256 q).1 ↔
      canonical alphabet noise p = canonical alphabet noise q := by
  refine hsha.eq_iff.trans (Payload.canonicalJson_inj.trans ?_)
  exact iff_of_eq (congrArg₂ _ (sorted_walk p) (sorted_walk q))

end

end Hqsb.Compiler
