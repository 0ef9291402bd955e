import Dpp.Wrapper.Prototype

/-!
# The name of a prototype

The function name is the only match of an expression that is not anchored.

* `supported_unique`: a text has one supported prefix at most.
* `ClearName`: nothing that looks like a name begins in front of the name, and it ends where the
  match ends.
* **`eq_name_iff`**: the only match is the name exactly if it is clear.
-/

namespace Dpp.Wrapper

open Lib Lib.Shell

namespace Prototype

variable {P : Prototype} {s : List Char}

/-! ## The supported prefixes -/

/-- The length of the supported prefix that a text has, if it has one. -/
def prefixLength : List Char → ℕ
  | '_' :: 'R' :: _ | '_' :: 'O' :: _ => 4
  | '_' :: _ => 3
  | 'R' :: _ | 'O' :: _ => 3
  | _ => 2

theorem length_of_supported {w : List Char} (hw : w ∈ supportedPrefix.lang) (h : w <+: s) :
    w.length = prefixLength s := by
  obtain ⟨x, hx, y, hy, rfl⟩ := Regex.mem_lang_seq.mp hw
  obtain ⟨t, rfl⟩ := h
  have hx := Regex.mem_lang_oneOf.mp hx
  have hy : y ∈ ["Ex".toList, "Zw".toList, "Rtl".toList, "Mm".toList, "Io".toList] ∨
      ∃ c, y = ['O', 'b', c] := by
    rcases Regex.mem_lang_alt.mp hy with hy | hy
    · exact .inl (Regex.mem_lang_oneOf.mp hy)
    · obtain ⟨u, hu, v, ⟨c, -, rfl⟩, rfl⟩ := Regex.mem_lang_seq.mp hy
      obtain rfl := Regex.mem_lang_literal.mp hu
      exact .inr ⟨c, rfl⟩
  simp only [List.mem_cons, List.not_mem_nil, or_false] at hx hy
  rcases hx with rfl | rfl <;> rcases hy with (rfl | rfl | rfl | rfl | rfl) | ⟨c, rfl⟩ <;> rfl

/-- A text has one supported prefix at most. -/
theorem supported_unique {w v : List Char} (hw : w ∈ supportedPrefix.lang)
    (hv : v ∈ supportedPrefix.lang) (hws : w <+: s) (hvs : v <+: s) : v = w := by
  have hlen : v.length = w.length := by
    rw [length_of_supported hw hws, length_of_supported hv hvs]
  exact (List.prefix_of_prefix_length_le hvs hws hlen.le).eq_of_length hlen

theorem supported_ne_nil {w : List Char} (hw : w ∈ supportedPrefix.lang) : w ≠ [] := by
  rintro rfl
  have := length_of_supported hw (List.nil_prefix (l := []))
  cases this

/-- The characters of a function name. -/
def inName (c : Char) : Bool := c ≠ ' ' && c ≠ '('

/-- What is matched at a supported prefix. -/
theorem isLongest_functionName {w : List Char} (hw : w ∈ supportedPrefix.lang) :
    functionName.IsLongest (w ++ s) (w ++ s.takeWhile inName) :=
  Regex.isLongest_seq_star hw fun _ hu hm => supported_unique hw hm (List.prefix_append w s) hu

theorem begins_functionName {w : List Char} (hw : w ∈ supportedPrefix.lang) :
    functionName.Begins (w ++ s) :=
  (isLongest_functionName hw).begins (List.append_ne_nil_of_left_ne_nil (supported_ne_nil hw) _)

theorem all_inName (i : Identifier) : ∀ c ∈ i.text, inName c := by
  intro c hc
  have hspace : c ≠ ' ' := fun h => i.not_mem (by decide) (h ▸ hc)
  have hparen : c ≠ '(' := fun h => i.not_mem (by decide) (h ▸ hc)
  simp [inName, hspace, hparen]

/-! ## The match at the name -/

variable (P) in
/-- The name has a supported prefix, nothing in front of it looks like a name, and a space or the
parenthesis follows it. -/
structure ClearName : Prop where
  supported : ∃ w ∈ supportedPrefix.lang, w <+: P.name.text
  early : ∀ u v, u ++ v = P.rtype → v ≠ [] → ¬ functionName.Begins (v ++ (P.name.text ++ P.behind))
  next : ∀ c ∈ P.gap.head?, c = ' '

/-- The name is matched whole and alone exactly if a space or the parenthesis follows it. -/
theorem isLongest_name_iff (h : ∃ w ∈ supportedPrefix.lang, w <+: P.name.text) :
    functionName.IsLongest (P.name.text ++ P.behind) P.name.text ↔ ∀ c ∈ P.gap.head?, c = ' ' := by
  obtain ⟨w, hw, q, hq⟩ := h
  have hin : ∀ c ∈ q, inName c := fun c hc => all_inName P.name c (hq ▸ List.mem_append_right w hc)
  have hlongest := isLongest_functionName (s := q ++ P.behind) hw
  rw [List.takeWhile_append_of_pos hin, ← List.append_assoc, ← List.append_assoc, hq] at hlongest
  have hiff : functionName.IsLongest (P.name.text ++ P.behind) P.name.text ↔
      P.behind.takeWhile inName = [] := by
    constructor
    · intro h
      exact List.append_right_eq_self.mp (hlongest.unique h)
    · intro h
      rwa [h, List.append_nil] at hlongest
  rw [hiff]
  unfold behind
  cases hg : P.gap with
  | nil => exact iff_of_true (List.takeWhile_cons_of_neg (by decide)) fun c hc => by cases hc
  | cons c g =>
    have hspace : c ≠ '(' := by
      rintro rfl
      exact not_mem_of_isSpace P.gap_space rfl (hg ▸ List.mem_cons_self)
    rw [List.cons_append, List.head?_cons]
    by_cases hc : c = ' '
    · subst hc
      exact iff_of_true (List.takeWhile_cons_of_neg (by decide)) fun c hc =>
        (Option.mem_some.mp hc).symm
    · rw [List.takeWhile_cons_of_pos (by simp [inName, hc, hspace])]
      exact iff_of_false (List.cons_ne_nil _ _) fun h => hc (h c rfl)

theorem begins_name (h : ∃ w ∈ supportedPrefix.lang, w <+: P.name.text) :
    functionName.Begins (P.name.text ++ P.behind) := by
  obtain ⟨w, hw, q, hq⟩ := h
  rw [← hq, List.append_assoc]
  exact begins_functionName hw

/-- What is matched has a supported prefix. -/
theorem exists_supported (h : s ∈ functionName.lang) : ∃ w ∈ supportedPrefix.lang, w <+: s := by
  obtain ⟨w, hw, v, -, rfl⟩ := Regex.mem_lang_seq.mp h
  exact ⟨w, hw, List.prefix_append w v⟩

/-- With a clear name the first match is the name. -/
theorem eq_name_of_clear (hc : ClearName P) (h : functionName.grepO P.body = [s]) :
    s = P.name.text := by
  rw [body, Regex.grepO_append_of_not_begins hc.early,
    Regex.grepO_of_isLongest ((isLongest_name_iff hc.supported).mpr hc.next) P.name.ne_nil] at h
  exact (List.cons.inj h).1.symm

/-- The name is not a match in the return type, with another one behind it. -/
theorem not_match_in_rtype {u x : List Char} (hx : P.rtype = u ++ x) (hne : x ≠ [])
    (hl : P.name.text <+: x ++ (P.name.text ++ P.behind))
    (hbegins : functionName.Begins (P.name.text ++ P.behind)) :
    functionName.grepO ((x ++ (P.name.text ++ P.behind)).drop P.name.text.length) ≠ [] := by
  have hlast : ¬ isIdent (x.getLast hne) := by
    refine P.rtype_end _ ?_
    rw [hx, List.getLast?_append_of_ne_nil u hne, List.getLast?_eq_some_getLast hne]
    rfl
  have hlen : P.name.text.length ≤ x.length := by
    by_contra hlt
    have hxn : x <+: P.name.text :=
      List.prefix_of_prefix_length_le (List.prefix_append ..) hl (by omega)
    exact hlast (P.name.ident _ (hxn.subset (List.getLast_mem hne)))
  intro h
  rw [List.drop_append_of_le_length hlen, Regex.grepO_eq_nil_iff] at h
  exact h _ _ rfl hbegins

/-- If the only match is the name, it is the match at the name. -/
theorem clearName_of_eq (h : functionName.grepO P.body = [P.name.text]) : ClearName P := by
  obtain ⟨u, t, hut, hu, -, hl, hrest⟩ := Regex.exists_of_grepO_eq_cons h
  have hsupported := exists_supported hl.mem
  have hbegins := begins_name hsupported
  have hu' : u = P.rtype ∧ t = P.name.text ++ P.behind := by
    rcases List.append_eq_append_iff.mp hut with ⟨x, hx, ht⟩ | ⟨x, hx, ht⟩
    · rcases eq_or_ne x [] with rfl | hne
      · exact ⟨hx.trans (List.append_nil _), ht.symm⟩
      · exact absurd (ht ▸ hbegins) (hu P.rtype x hx.symm hne)
    · rcases eq_or_ne x [] with rfl | hne
      · exact ⟨(hx.trans (List.append_nil _)).symm, ht⟩
      · subst ht
        exact absurd hrest (not_match_in_rtype hx hne hl.isPrefix hbegins)
  obtain ⟨rfl, rfl⟩ := hu'
  exact ⟨hsupported, hu, (isLongest_name_iff hsupported).mp hl⟩

/-- **The name is what the script finds exactly if** it is clear. -/
theorem eq_name_iff (h : functionName.grepO P.body = [s]) : s = P.name.text ↔ ClearName P := by
  constructor
  · rintro rfl
    exact clearName_of_eq h
  · exact fun hc => eq_name_of_clear hc h

end Prototype

end Dpp.Wrapper
