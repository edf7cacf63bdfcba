import Rcptto.ForStd.List

/-!
# Paths of URLs

A path is a sequence of bytes that begins with a slash. A byte can be written as a percent sign and
two hexadecimal digits. The segments of a path are what lies between its slashes, each decoded on
its own, so that an encoded slash is a part of a segment and separates nothing. A slash at the end
counts as a segment.

## Key results

- `unescape_append_slash`: decoding goes piece by piece
- `segments_of_notMem`, `segments_append`: the segments of a path from left to right
- `decoded_cases`: how the decoded path begins, by the first segment
-/

namespace UrlPath

/-- A path, or a part of one. -/
abbrev Bytes := List UInt8

/-- `/`. -/
def slash : UInt8 := 0x2F

/-- `%`. -/
def percent : UInt8 := 0x25

/-- `.`. -/
def dot : UInt8 := 0x2E

/-! ## Decoding -/

/-- The value of a hexadecimal digit. -/
def hexValue (b : UInt8) : Option UInt8 :=
  if 0x30 ≤ b && b ≤ 0x39 then some (b - 0x30)
  else if 0x61 ≤ b && b ≤ 0x66 then some (b - 0x61 + 10)
  else if 0x41 ≤ b && b ≤ 0x46 then some (b - 0x41 + 10)
  else none

/-- The byte that two digits stand for. -/
def hexPair (high low : UInt8) : Option UInt8 := do
  let h ← hexValue high
  let l ← hexValue low
  return h * 16 + l

/-- The bytes of an encoded text, unless a percent sign is not followed by two digits. -/
def unescape : Bytes → Option Bytes
  | [] => some []
  | b :: rest =>
    if b = percent then
      match rest with
      | high :: low :: rest => (hexPair high low).bind fun byte => (unescape rest).map (byte :: ·)
      | _ => none
    else (unescape rest).map (b :: ·)

theorem unescape_percent (high low : UInt8) (rest : Bytes) :
    unescape (percent :: high :: low :: rest) =
      (hexPair high low).bind fun byte => (unescape rest).map (byte :: ·) := by
  rw [unescape, if_pos rfl]

/-- Any other byte stands for itself. -/
theorem unescape_cons_of_ne {b : UInt8} (h : b ≠ percent) (rest : Bytes) :
    unescape (b :: rest) = (unescape rest).map (b :: ·) := by
  match rest with
  | [] => simp [unescape, h]
  | [_] => simp [unescape, h]
  | _ :: _ :: _ => rw [unescape, if_neg h]

/-- A slash is no digit. -/
theorem hexPair_slash (b : UInt8) : hexPair slash b = none ∧ hexPair b slash = none := by
  have hslash : hexValue slash = none := by decide
  simp [hexPair, hslash]

/-- Decoding goes piece by piece: the digits of a percent sign do not reach over a slash. -/
theorem unescape_append_slash (p q : Bytes) : unescape (p ++ slash :: q) =
    (unescape p).bind fun p' => (unescape q).map fun q' => p' ++ slash :: q' := by
  have hslash : slash ≠ percent := by decide
  induction p using unescape.induct with
  | case1 => simp [unescape, unescape_cons_of_ne hslash]
  | case2 high low rest ih =>
    rw [List.cons_append, List.cons_append, List.cons_append, unescape_percent, ih,
      unescape_percent]
    cases hexPair high low <;> cases unescape rest <;> simp [Function.comp_def]
  | case3 rest hrest =>
    match rest with
    | [] => cases q <;> simp [unescape, hexPair_slash]
    | [_] => simp [unescape, hexPair_slash]
    | high :: low :: rest => exact absurd rfl (hrest high low rest)
  | case4 b rest hb ih =>
    rw [List.cons_append, unescape_cons_of_ne hb, ih, unescape_cons_of_ne hb]
    cases unescape rest <;> simp [Function.comp_def]

/-- The bytes of an encoded text, or the text itself if it cannot be decoded. -/
def pathUnescape (p : Bytes) : Bytes := (unescape p).getD p

/-! ## Segments -/

/-- The segments of what lies between the slashes. -/
def segmentsOf : List Bytes → List Bytes
  | [] => []
  | [part] => [if part = [] then [slash] else pathUnescape part]
  | part :: next :: parts => pathUnescape part :: segmentsOf (next :: parts)

/-- The segments of a path, after its first slash. -/
def segments : Bytes → List Bytes
  | [] => []
  | _ :: body => segmentsOf (body.splitOn slash)

theorem segments_of_notMem {p : Bytes} (h : slash ∉ p) (b : UInt8) :
    segments (b :: p) = [if p = [] then [slash] else pathUnescape p] := by
  rw [segments, List.splitOn_eq_singleton h, segmentsOf]

theorem segments_append {p : Bytes} (h : slash ∉ p) (q : Bytes) (b : UInt8) :
    segments (b :: (p ++ slash :: q)) = pathUnescape p :: segments (slash :: q) := by
  rw [segments, segments, List.splitOn_append_cons_self, List.splitOn_eq_singleton h]
  obtain ⟨part, parts, hparts⟩ := List.exists_cons_of_ne_nil (List.splitOn_ne_nil slash q)
  rw [hparts, List.singleton_append, segmentsOf]

theorem segments_ne_nil (b : UInt8) (p : Bytes) : segments (b :: p) ≠ [] := by
  obtain ⟨part, parts, hparts⟩ := List.exists_cons_of_ne_nil (List.splitOn_ne_nil slash p)
  rw [segments, hparts]
  cases parts <;> simp [segmentsOf]

/-- Induction from slash to slash. -/
theorem slash_induction {P : Bytes → Prop} (last : ∀ p, slash ∉ p → P p)
    (next : ∀ p q, slash ∉ p → P q → P (p ++ slash :: q)) (p : Bytes) : P p := by
  by_cases h : slash ∈ p
  · obtain ⟨first, rest, heq, hfirst⟩ := List.eq_append_cons_of_mem h
    have hlt : rest.length < p.length := by
      rw [heq, List.length_append, List.length_cons]
      omega
    exact heq ▸ next first rest hfirst (slash_induction last next rest)
  · exact last p h
termination_by p.length

/-- There is one segment for each slash. -/
theorem length_segments (p : Bytes) :
    (segments (slash :: p)).length = (slash :: p).count slash := by
  induction p using slash_induction with
  | last p h => simp [segments_of_notMem h, List.count_eq_zero_of_not_mem h]
  | next p q h ih => simp [segments_append h, ih, List.count_eq_zero_of_not_mem h]

/-- A slash at the end is one more segment. -/
theorem segments_append_slash {p : Bytes} (h : (slash :: p).getLast? ≠ some slash) :
    segments (slash :: (p ++ [slash])) = segments (slash :: p) ++ [[slash]] := by
  have hroot : segments [slash] = [[slash]] := by decide
  induction p using slash_induction with
  | last p hp =>
    have hne : p ≠ [] := by
      rintro rfl
      exact h rfl
    rw [segments_append hp, hroot, segments_of_notMem hp, if_neg hne, List.singleton_append]
  | next p q hp ih =>
    rw [← List.cons_append, List.getLast?_append_of_ne_nil _ (List.cons_ne_nil _ _)] at h
    rw [List.append_assoc, List.cons_append, segments_append hp, segments_append hp, ih h,
      List.cons_append]

/-- How a decoded path begins, by the first segment of the encoded one. -/
theorem decoded_cases {p path seg : Bytes} {rest : List Bytes}
    (hpath : unescape (slash :: p) = some path) (hseg : segments (slash :: p) = seg :: rest) :
    (path = [slash] ∧ seg = [slash] ∧ rest = []) ∨ (path = slash :: seg ∧ rest = []) ∨
      ∃ tail, path = slash :: (seg ++ slash :: tail) ∧ rest ≠ [] := by
  have hslash : slash ≠ percent := by decide
  rw [unescape_cons_of_ne hslash, Option.map_eq_some_iff] at hpath
  obtain ⟨body, hbody, rfl⟩ := hpath
  -- the first segment ends at a slash, or with the path
  by_cases hmem : slash ∈ p
  · obtain ⟨first, tail, rfl, hfirst⟩ := List.eq_append_cons_of_mem hmem
    rw [segments_append hfirst] at hseg
    rw [unescape_append_slash, Option.bind_eq_some_iff] at hbody
    obtain ⟨first', hfirst', htail⟩ := hbody
    obtain ⟨tail', -, rfl⟩ := Option.map_eq_some_iff.mp htail
    obtain ⟨rfl, rfl⟩ := List.cons.inj hseg
    refine .inr (.inr ⟨tail', ?_, segments_ne_nil _ _⟩)
    rw [pathUnescape, hfirst', Option.getD_some]
  · rw [segments_of_notMem hmem] at hseg
    obtain ⟨hseg, hrest⟩ := List.cons.inj hseg
    by_cases hp : p = []
    · subst hp
      rw [if_pos rfl] at hseg
      exact .inl ⟨by simpa [unescape] using hbody.symm, hseg.symm, hrest.symm⟩
    · rw [if_neg hp, pathUnescape, hbody, Option.getD_some] at hseg
      exact .inr (.inl ⟨by rw [hseg], hrest.symm⟩)

/-- A word without a slash with which a path goes on is the beginning of the first segment. -/
theorem prefix_of_decoded {p path seg w : Bytes} {rest : List Bytes}
    (hpath : unescape (slash :: p) = some path) (hseg : segments (slash :: p) = seg :: rest)
    (hw : slash ∉ w) (hword : slash :: w <+: path) : w <+: seg := by
  -- the root, a path with one segment, or one that goes on
  rcases decoded_cases hpath hseg with ⟨rfl, -, -⟩ | ⟨rfl, -⟩ | ⟨tail, rfl, -⟩
  · rw [List.cons_prefix_cons] at hword
    rw [List.prefix_nil.mp hword.2]
    exact List.nil_prefix
  · exact (List.cons_prefix_cons.mp hword).2
  · have hlong := (List.cons_prefix_cons.mp hword).2
    rcases List.prefix_or_prefix_of_prefix hlong (List.prefix_append seg (slash :: tail)) with h | h
    · exact h
    · obtain ⟨t, rfl⟩ := h
      cases t with
      | nil => simp
      | cons b t =>
        obtain ⟨rfl, -⟩ := List.cons_prefix_cons.mp ((List.prefix_append_right_inj seg).mp hlong)
        simp at hw

/-! ## Canonical paths -/

/-- The parts of a path without empty ones and dots, where two dots take the one before away. -/
def cleanParts (parts : List Bytes) : List Bytes :=
  parts.foldl (fun out part =>
    if part = [] ∨ part = [dot] then out
    else if part = [dot, dot] then out.dropLast
    else out ++ [part]) []

/-- The canonical form of a path. It begins with a slash, and ends with one if the path does. -/
def cleanPath (p : Bytes) : Bytes :=
  let parts := p.splitOn slash
  let clean := slash :: [slash].intercalate (cleanParts parts)
  if p.getLast? = some slash ∧ clean ≠ [slash] then clean ++ [slash] else clean

/-- A clean path begins with a slash. -/
theorem exists_cleanPath (p : Bytes) : ∃ body, cleanPath p = slash :: body := by
  unfold cleanPath
  dsimp only
  split
  · exact ⟨_, List.cons_append⟩
  · exact ⟨_, rfl⟩

/-! ## Plain words -/

/-- A word that stands for itself between the slashes of a path. -/
structure Plain (w : Bytes) : Prop where
  ne_nil : w ≠ []
  ne_dot : w ≠ [dot]
  ne_dots : w ≠ [dot, dot]
  slash_notMem : slash ∉ w
  percent_notMem : percent ∉ w

instance (w : Bytes) : Decidable (Plain w) :=
  decidable_of_iff (w ≠ [] ∧ w ≠ [dot] ∧ w ≠ [dot, dot] ∧ slash ∉ w ∧ percent ∉ w)
    ⟨fun ⟨h₁, h₂, h₃, h₄, h₅⟩ => ⟨h₁, h₂, h₃, h₄, h₅⟩,
      fun ⟨h₁, h₂, h₃, h₄, h₅⟩ => ⟨h₁, h₂, h₃, h₄, h₅⟩⟩

/-- The path with these words. -/
def ofWords (words : List Bytes) : Bytes := slash :: [slash].intercalate words

/-- Without a percent sign there is nothing to decode. -/
theorem unescape_of_notMem {p : Bytes} (h : percent ∉ p) : unescape p = some p := by
  induction p with
  | nil => rfl
  | cons b p ih =>
    rw [List.mem_cons, not_or] at h
    rw [unescape_cons_of_ne (Ne.symm h.1), ih h.2, Option.map_some]

theorem pathUnescape_of_notMem {p : Bytes} (h : percent ∉ p) : pathUnescape p = p := by
  rw [pathUnescape, unescape_of_notMem h, Option.getD_some]

variable {words : List Bytes}

theorem splitOn_ofWords (h : ∀ w ∈ words, Plain w) (hne : words ≠ []) :
    (ofWords words).splitOn slash = [] :: words := by
  rw [ofWords, ← List.nil_append (slash :: _), List.splitOn_append_cons_self, List.splitOn_nil,
    List.splitOn_intercalate slash (fun w hw => (h w hw).slash_notMem) hne, List.singleton_append]

/-- The words of a path are its segments. -/
theorem segments_ofWords (h : ∀ w ∈ words, Plain w) (hne : words ≠ []) :
    segments (ofWords words) = words := by
  -- a plain word has nothing to decode
  have hparts : ∀ parts : List Bytes, (∀ w ∈ parts, Plain w) → segmentsOf parts = parts := by
    intro parts hplain
    induction parts using segmentsOf.induct with
    | case1 => rfl
    | case2 part =>
      have hpart := hplain part (List.mem_singleton_self part)
      rw [segmentsOf, if_neg hpart.ne_nil, pathUnescape_of_notMem hpart.percent_notMem]
    | case3 part next parts ih =>
      have hpart := hplain part List.mem_cons_self
      rw [segmentsOf, pathUnescape_of_notMem hpart.percent_notMem,
        ih fun w hw => hplain w (List.mem_cons_of_mem _ hw)]
  rw [ofWords, segments, List.splitOn_intercalate slash (fun w hw => (h w hw).slash_notMem) hne,
    hparts words h]

/-- A path of words is canonical. -/
theorem cleanPath_ofWords (h : ∀ w ∈ words, Plain w) (hne : words ≠ []) :
    cleanPath (ofWords words) = ofWords words := by
  have hparts : ∀ (parts out : List Bytes), (∀ w ∈ parts, Plain w) →
      parts.foldl (fun out part =>
        if part = [] ∨ part = [dot] then out
        else if part = [dot, dot] then out.dropLast
        else out ++ [part]) out = out ++ parts := by
    intro parts
    induction parts with
    | nil => simp
    | cons part parts ih =>
      intro out hplain
      obtain ⟨hnil, hdot, hdots, -, -⟩ := hplain part List.mem_cons_self
      rw [List.foldl_cons, if_neg (not_or.mpr ⟨hnil, hdot⟩), if_neg hdots,
        ih _ fun w hw => hplain w (List.mem_cons_of_mem _ hw), List.append_assoc,
        List.singleton_append]
  -- a slash at the end would leave an empty last word
  have hlast : (ofWords words).getLast? ≠ some slash := by
    intro hslash
    obtain ⟨init, hinit⟩ := List.getLast?_eq_some_iff.mp hslash
    have hsplit := splitOn_ofWords h hne
    rw [hinit, List.splitOn_append_cons_self, List.splitOn_nil] at hsplit
    have hempty : words.getLast? = some [] := by
      rw [← List.getLast?_cons_of_ne_nil hne, ← hsplit, List.getLast?_concat]
    exact (h [] (List.mem_of_getLast? hempty)).ne_nil rfl
  have hclean : cleanParts ([] :: words) = words := by
    rw [cleanParts, List.foldl_cons, if_pos (.inl rfl), hparts words [] h, List.nil_append]
  rw [cleanPath, splitOn_ofWords h hne, hclean, if_neg (fun hslash => hlast hslash.1)]
  rfl

end UrlPath
