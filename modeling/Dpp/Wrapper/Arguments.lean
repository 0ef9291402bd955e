import Dpp.Wrapper.Prototype

/-!
# The forwarded arguments

The signature loses its parentheses and is cut in front of each comma; of each piece the script
takes what follows the last space, and forwards the words of it.

* `cuts`: the pieces of each declaration; `Own`: just one of them ends in the identifier.
* `forwarded`: the words of a piece; **`own_iff`**.
* **`fields_param_names`**: the words of the loop are those of the declarations.
* `params_eq`, **`intercalate_injective`**: the argument list has the words, and tells which.
-/

namespace Dpp.Wrapper

open Lib Lib.Shell

namespace Prototype

variable {P : Prototype} {c : Char} {s t : List Char}

/-! ## The pieces -/

/-- A blank other than a space: in a line, a tab. -/
def isTab (c : Char) : Bool := isIfs c && c ≠ ' '

/-- Nothing, or a text that ends in a space. -/
def upToSpace (x : List Char) : Prop := ∀ c ∈ x.getLast?, c = ' '

/-- The word is what follows the last space, but for tabs. -/
def EndsIn (w l : List Char) : Prop :=
  ∃ x y z, l = x ++ (y ++ w ++ z) ∧ upToSpace x ∧ (∀ c ∈ y, isTab c) ∧ ∀ c ∈ z, isTab c

/-- Nothing but tabs follows the last space. -/
def Bare (l : List Char) : Prop := ∃ x y, l = x ++ y ∧ upToSpace x ∧ ∀ c ∈ y, isTab c

/-- A text cut in front of each comma, and with a comma in front if it is not the first. -/
def cut (comma : Bool) (s : List Char) : List (List Char) :=
  match s.splitOn ',' with
  | [] => []
  | p :: ps => (if comma then ',' :: p else p) :: ps.map (',' :: ·)

/-- The pieces of each declaration; the white space at the end counts with the last one. -/
def cuts (ending : List Char) :
    Bool → List Declaration → List (List (List Char) × Option Identifier)
  | _, [] => []
  | comma, [d] => [(cut comma (withoutBraces d.text ++ ending), d.identifier)]
  | comma, d :: d' :: ds =>
    (cut comma (withoutBraces d.text), d.identifier) :: cuts ending true (d' :: ds)

/-- Just one of the pieces ends in the identifier, where there is one, and the others are bare. -/
def Own : List (List Char) × Option Identifier → Prop
  | (ls, none) => ∀ l ∈ ls, Bare l
  | (ls, some i) => ∃ us l vs, ls = us ++ l :: vs ∧ EndsIn i.text l ∧ (∀ u ∈ us, Bare u) ∧
      ∀ v ∈ vs, Bare v

/-! ## The words of a piece -/

/-- What is forwarded for a piece. -/
def forwarded (l : List Char) : List (List Char) := (parameterName.grepEnd l).flatMap fields

theorem forwarded_append (hs : upToSpace s) (ht : ∀ c ∈ t, c ≠ ' ') :
    forwarded (s ++ t) = fields t := by
  have hlast : ∀ a, s.getLast? = some a → ¬ (decide (a ≠ ' ')) = true := fun a ha => by
    simpa using hs a ha
  have hall : ∀ a ∈ t, decide (a ≠ ' ') = true := fun a ha => decide_eq_true (ht a ha)
  unfold forwarded parameterName
  rcases eq_or_ne t [] with rfl | hne
  · rw [List.append_nil, Regex.grepEnd_star_nil hlast]
    rfl
  · rw [Regex.grepEnd_star hall hne hlast, List.flatMap_singleton]

/-- A piece, at its last space. -/
theorem exists_upToSpace (l : List Char) :
    ∃ x t, l = x ++ t ∧ upToSpace x ∧ ∀ c ∈ t, c ≠ ' ' := by
  refine ⟨l.rdropWhile (· ≠ ' '), l.rtakeWhile (· ≠ ' '),
    (List.rdropWhile_append_rtakeWhile ..).symm, fun c hc => ?_, fun c hc => ?_⟩
  · have hne : l.rdropWhile (· ≠ ' ') ≠ [] := by
      rintro h
      rw [h] at hc
      cases hc
    rw [List.getLast?_eq_some_getLast hne, Option.mem_some] at hc
    have hlast := List.rdropWhile_last_not _ _ hne
    rw [hc] at hlast
    simpa using hlast
  · simpa using List.mem_rtakeWhile_imp hc

theorem isTab_iff : isTab c ↔ isIfs c ∧ c ≠ ' ' := by
  simp [isTab]

theorem forwarded_eq_nil_iff : forwarded s = [] ↔ Bare s := by
  constructor
  · intro h
    obtain ⟨x, t, rfl, hx, ht⟩ := exists_upToSpace s
    rw [forwarded_append hx ht, fields_eq_nil_iff] at h
    exact ⟨x, t, rfl, hx, fun c hc => isTab_iff.mpr ⟨h c hc, ht c hc⟩⟩
  · rintro ⟨x, y, rfl, hx, hy⟩
    rw [forwarded_append hx fun c hc => (isTab_iff.mp (hy c hc)).2, fields_eq_nil_iff]
    exact fun c hc => (isTab_iff.mp (hy c hc)).1

theorem forwarded_eq_singleton_iff (i : Identifier) : forwarded s = [i.text] ↔ EndsIn i.text s := by
  constructor
  · intro h
    obtain ⟨x, t, rfl, hx, ht⟩ := exists_upToSpace s
    rw [forwarded_append hx ht, fields_eq_singleton_iff] at h
    obtain ⟨-, -, y, z, hy, hz, rfl⟩ := h
    refine ⟨x, y, z, rfl, hx, fun c hc => isTab_iff.mpr ⟨hy c hc, ht c ?_⟩,
      fun c hc => isTab_iff.mpr ⟨hz c hc, ht c ?_⟩⟩
    · exact List.mem_append_left _ (List.mem_append_left _ hc)
    · exact List.mem_append_right _ hc
  · rintro ⟨x, y, z, rfl, hx, hy, hz⟩
    have hword := i.not_isIfs
    have hspace : ∀ c ∈ y ++ i.text ++ z, c ≠ ' ' := by
      intro c hc
      rcases List.mem_append.mp hc with hc | hc
      · rcases List.mem_append.mp hc with hc | hc
        · exact (isTab_iff.mp (hy c hc)).2
        · rintro rfl
          exact Bool.false_ne_true ((hword _ hc).symm.trans rfl)
      · exact (isTab_iff.mp (hz c hc)).2
    rw [forwarded_append hx hspace, fields_eq_singleton_iff]
    exact ⟨i.ne_nil, hword, y, z, fun c hc => (isTab_iff.mp (hy c hc)).1,
      fun c hc => (isTab_iff.mp (hz c hc)).1, rfl⟩

theorem mem_fields_of_mem_forwarded {w : List Char} (h : w ∈ forwarded s) : w ∈ fields s := by
  obtain ⟨x, t, rfl, hx, ht⟩ := exists_upToSpace s
  rw [forwarded_append hx ht] at h
  rcases List.eq_nil_or_concat x with rfl | ⟨u, a, rfl⟩
  · exact h
  · have ha : a = ' ' := hx a (by simp)
    subst ha
    rw [List.concat_eq_append, List.append_assoc, List.singleton_append, fields_append_cons rfl]
    exact List.mem_append_right _ h

/-- **The pieces of a declaration** forward its identifier and nothing else exactly if the
identifier is on its own. -/
theorem own_iff (d : List (List Char) × Option Identifier) :
    Own d ↔ d.1.flatMap forwarded = (d.2.map Identifier.text).toList := by
  obtain ⟨ls, i⟩ := d
  cases i with
  | none =>
    change (∀ l ∈ ls, Bare l) ↔ ls.flatMap forwarded = []
    rw [List.flatMap_eq_nil_iff]
    exact forall₂_congr fun l _ => forwarded_eq_nil_iff.symm
  | some i =>
    change _ ↔ (ls.map forwarded).flatten = [i.text]
    rw [List.flatten_eq_singleton_iff]
    constructor
    · rintro ⟨us, l, vs, rfl, hl, hu, hv⟩
      refine ⟨us.map forwarded, vs.map forwarded, ?_, ?_, ?_⟩
      · rw [List.map_append, List.map_cons, (forwarded_eq_singleton_iff i).mpr hl]
      · exact List.forall_mem_map.mpr fun u h => forwarded_eq_nil_iff.mpr (hu u h)
      · exact List.forall_mem_map.mpr fun v h => forwarded_eq_nil_iff.mpr (hv v h)
    · rintro ⟨as, bs, h, has, hbs⟩
      obtain ⟨us, ws, rfl, rfl, hws⟩ := List.map_eq_append_iff.mp h
      obtain ⟨l, vs, rfl, hl, rfl⟩ := List.map_eq_cons_iff.mp hws
      refine ⟨us, l, vs, rfl, (forwarded_eq_singleton_iff i).mp hl, fun u hu => ?_, fun v hv => ?_⟩
      · exact forwarded_eq_nil_iff.mp (has _ (List.mem_map_of_mem hu))
      · exact forwarded_eq_nil_iff.mp (hbs _ (List.mem_map_of_mem hv))

/-! ## The pieces of the signature -/

theorem cut_append_cons (comma : Bool) (s t : List Char) :
    cut comma (s ++ ',' :: t) = cut comma s ++ cut true t := by
  obtain ⟨p, ps, hs⟩ := List.exists_cons_of_ne_nil (List.splitOn_ne_nil ',' s)
  obtain ⟨q, qs, ht⟩ := List.exists_cons_of_ne_nil (List.splitOn_ne_nil ',' t)
  simp only [cut, List.splitOn_append_cons_self, hs, ht, List.cons_append, List.map_append,
    List.map_cons, if_true]

theorem pieces_eq (s : List Char) : pieces s = cut false s ++ [[]] := by
  obtain ⟨p, ps, hs⟩ := List.exists_cons_of_ne_nil (List.splitOn_ne_nil ',' s)
  simp only [pieces, cut, hs, Bool.false_eq_true, if_false, List.cons_append]

theorem withoutBraces_append (s t : List Char) :
    withoutBraces (s ++ t) = withoutBraces s ++ withoutBraces t := List.filter_append ..

/-- The pieces of the parameters are those of the declarations. -/
theorem cut_parameters (ending : List Char) (comma : Bool) (d : Declaration)
    (ds : List Declaration) :
    cut comma (withoutBraces ([','].intercalate ((d :: ds).map Declaration.text)) ++ ending) =
      ((cuts ending comma (d :: ds)).map Prod.fst).flatten := by
  induction ds generalizing d comma with
  | nil => simp [cuts, List.intercalate_singleton]
  | cons d' ds ih =>
    have hcomma : withoutBraces [','] = [','] := rfl
    rw [List.map_cons, List.map_cons, List.intercalate_cons_cons, withoutBraces_append,
      withoutBraces_append, hcomma, List.append_assoc, List.append_assoc, List.singleton_append,
      cut_append_cons, ← List.map_cons, ih true d', cuts, List.map_cons, List.flatten_cons]

theorem map_snd_cuts (ending : List Char) (comma : Bool) (ds : List Declaration) :
    (cuts ending comma ds).map Prod.snd = ds.map Declaration.identifier := by
  induction ds generalizing comma with
  | nil => rfl
  | cons d ds ih =>
    cases ds with
    | nil => rfl
    | cons d' ds =>
      rw [cuts, List.map_cons, ih]
      rfl

theorem identifiers_eq : P.identifiers =
    (cuts P.ending false P.declarations).filterMap fun d => d.2.map Identifier.text := by
  have h := congrArg (List.filterMap (Option.map Identifier.text))
    (map_snd_cuts P.ending false P.declarations)
  rw [List.filterMap_map, List.filterMap_map] at h
  exact h.symm

theorem newline_not_mem_args : '\n' ∉ withoutBraces P.parameters ++ P.ending := by
  intro h
  rcases List.mem_append.mp h with h | h
  · exact not_mem_parameters (.inr rfl) (List.mem_of_mem_filter h)
  · exact not_mem_of_isSpace ending_space rfl h

theorem params_without_braces_eq :
    params_without_braces P.body = withoutBraces P.parameters ++ P.ending := by
  have hending : withoutBraces P.ending = P.ending := by
    refine List.filter_eq_self.mpr fun c hc => ?_
    have hopen : c ≠ '(' := fun h => not_mem_of_isSpace ending_space rfl (h ▸ hc)
    have hclose : c ≠ ')' := fun h => not_mem_of_isSpace ending_space rfl (h ▸ hc)
    simp [hopen, hclose]
  have hbraces : withoutBraces ('(' :: (P.parameters ++ ')' :: P.ending)) =
      withoutBraces P.parameters ++ P.ending := by
    have hsplit : '(' :: (P.parameters ++ ')' :: P.ending) =
        ['('] ++ (P.parameters ++ ([')'] ++ P.ending)) := rfl
    rw [hsplit, withoutBraces_append, withoutBraces_append, withoutBraces_append, hending]
    rfl
  rw [params_without_braces, fnsig_eq, hbraces, substitution_of_not_mem newline_not_mem_args]

theorem fields_capture (ls : List (List Char)) : fields (capture ls) = ls.flatMap fields := by
  rw [capture, fields_substitution, fields_joinLines]

/-- **The words of the loop** are those of the declarations. -/
theorem fields_param_names : fields (param_names P.body) =
    (cuts P.ending false P.declarations).flatMap fun d => d.1.flatMap forwarded := by
  have hpieces : (pieces (withoutBraces P.parameters ++ P.ending)).flatMap forwarded =
      (cuts P.ending false P.declarations).flatMap fun d => d.1.flatMap forwarded := by
    have hcut : cut false (withoutBraces P.parameters ++ P.ending) =
        (cuts P.ending false P.declarations).flatMap Prod.fst :=
      cut_parameters P.ending false P.first P.others
    have hlast : [[]].flatMap forwarded = [] := rfl
    rw [pieces_eq, List.flatMap_append, hcut, List.flatMap_assoc, hlast, List.append_nil]
  unfold param_names
  rw [params_without_braces_eq]
  split_ifs with h
  · rw [← hpieces, h]
    rfl
  · rw [List.splitOn_eq_singleton newline_not_mem_args, List.flatMap_singleton, fields_capture,
      List.flatMap_assoc, ← hpieces]
    rfl

/-! ## The argument list -/

/-- Each word and a comma. -/
def withCommas (ws : List (List Char)) : List Char := ws.flatMap (· ++ ", ".toList)

theorem withCommas_eq {ws : List (List Char)} (h : ws ≠ []) :
    withCommas ws = ", ".toList.intercalate ws ++ ", ".toList := by
  induction ws with
  | nil => exact absurd rfl h
  | cons w ws ih =>
    cases ws with
    | nil => rw [withCommas, List.flatMap_singleton, List.intercalate_singleton]
    | cons v ws =>
      rw [withCommas, List.flatMap_cons, ← withCommas, ih (List.cons_ne_nil _ _),
        List.intercalate_cons_cons, List.append_assoc, List.append_assoc, List.append_assoc]

theorem dropComma_withCommas (ws : List (List Char)) :
    dropComma (withCommas ws) = ", ".toList.intercalate ws := by
  rcases eq_or_ne ws [] with rfl | hne
  · rfl
  · have hsuffix : ", ".toList.isSuffixOf (", ".toList.intercalate ws ++ ", ".toList) :=
      List.isSuffixOf_iff_suffix.mpr (List.suffix_append ..)
    rw [withCommas_eq hne, dropComma, if_pos hsuffix, List.length_append]
    exact List.take_left' rfl

theorem params_eq {g : PathnameExpansion} {line : List Char} (h : ∀ w ∈ words g line, '\n' ∉ w) :
    params g line = ", ".toList.intercalate (words g line) := by
  have hcommas : '\n' ∉ withCommas (words g line) := by
    intro hm
    obtain ⟨w, hw, hm⟩ := List.mem_flatMap.mp hm
    rcases List.mem_append.mp hm with hm | hm
    · exact h w hw hm
    · revert hm
      decide
  have hjoined : '\n' ∉ ", ".toList.intercalate (words g line) := by
    intro hm
    rcases eq_or_ne (words g line) [] with hw | hw
    · rw [hw] at hm
      cases hm
    · refine hcommas ?_
      rw [withCommas_eq hw]
      exact List.mem_append_left _ hm
  change capture (((withCommas (words g line)).splitOn '\n').map dropComma) = _
  rw [List.splitOn_eq_singleton hcommas, List.map_singleton, dropComma_withCommas,
    capture_singleton hjoined]

/-- The texts that `fields` has as words. -/
def AreWords (ws : List (List Char)) : Prop := ∀ w ∈ ws, w ≠ [] ∧ ∀ c ∈ w, isIfs c = false

theorem fields_withCommas {ws : List (List Char)} (h : AreWords ws) :
    fields (withCommas ws) = ws.map (· ++ [',']) := by
  induction ws with
  | nil => rfl
  | cons w ws ih =>
    obtain ⟨hw, hws⟩ := List.forall_mem_cons.mp h
    have hword : ∀ c ∈ w ++ [','], isIfs c = false := by
      intro c hc
      rcases List.mem_append.mp hc with hc | hc
      · exact hw.2 c hc
      · rw [List.mem_singleton.mp hc]
        rfl
    have hcons : withCommas (w :: ws) = (w ++ [',']) ++ ' ' :: withCommas ws := by
      simp [withCommas]
    rw [hcons, fields_append_cons rfl, fields_of_word (by simp) hword, ih hws]
    rfl

theorem eq_nil_of_intercalate {ws : List (List Char)} (h : AreWords ws)
    (hi : ", ".toList.intercalate ws = []) : ws = [] := by
  cases ws with
  | nil => rfl
  | cons w ws =>
    have hcomma : withCommas (w :: ws) = ", ".toList := by
      rw [withCommas_eq (List.cons_ne_nil _ _), hi, List.nil_append]
    have hfields := fields_withCommas h
    rw [hcomma] at hfields
    have hempty : w ++ [','] = [] ++ [','] := (List.cons.inj hfields).1.symm
    exact absurd (List.append_cancel_right hempty) (h w List.mem_cons_self).1

/-- Words can be told from the argument list. -/
theorem intercalate_injective {ws vs : List (List Char)} (hw : AreWords ws) (hv : AreWords vs)
    (h : ", ".toList.intercalate ws = ", ".toList.intercalate vs) : ws = vs := by
  rcases eq_or_ne ws [] with rfl | hws
  · exact (eq_nil_of_intercalate hv h.symm).symm
  · have hvs : vs ≠ [] := by
      rintro rfl
      exact hws (eq_nil_of_intercalate hw h)
    have hcommas : withCommas ws = withCommas vs := by
      rw [withCommas_eq hws, withCommas_eq hvs, h]
    have hmap : ws.map (· ++ [',']) = vs.map (· ++ [',']) := by
      rw [← fields_withCommas hw, ← fields_withCommas hv, hcommas]
    exact List.map_injective_iff.mpr (fun u v huv => List.append_cancel_right huv) hmap

/-- If the words are the names, and those of a declaration its own, each declaration has its own
and no other. -/
theorem eq_toList_of_flatMap_eq {α β : Type*} {f : β → List α} {g : β → Option α} {ds : List β}
    (h : ds.flatMap f = ds.filterMap g) (hn : (ds.filterMap g).Nodup)
    (ha : ∀ d ∈ ds, ∀ w ∈ f d, g d = some w) : ∀ d ∈ ds, f d = (g d).toList := by
  induction ds with
  | nil => exact fun d hd => absurd hd List.not_mem_nil
  | cons d ds ih =>
    obtain ⟨hd, hds⟩ := List.forall_mem_cons.mp ha
    rw [List.flatMap_cons] at h
    cases hg : g d with
    | none =>
      have hf : f d = [] := List.eq_nil_iff_forall_not_mem.mpr fun w hw => by
        cases hg.symm.trans (hd w hw)
      rw [hf, List.nil_append, List.filterMap_cons_none hg] at h
      rw [List.filterMap_cons_none hg] at hn
      exact List.forall_mem_cons.mpr ⟨by rw [hf, hg]; rfl, ih h hn hds⟩
    | some a =>
      rw [List.filterMap_cons_some hg] at h hn
      obtain ⟨hna, hnds⟩ := List.nodup_cons.mp hn
      have hmem : ∀ w ∈ f d, w = a := fun w hw => (Option.some.inj (hg.symm.trans (hd w hw))).symm
      cases hf : f d with
      | nil =>
        have hin : a ∈ ds.flatMap f := by
          rw [hf, List.nil_append] at h
          rw [h]
          exact List.mem_cons_self
        obtain ⟨d', hd', had⟩ := List.mem_flatMap.mp hin
        exact absurd (List.mem_filterMap.mpr ⟨d', hd', hds d' hd' a had⟩) hna
      | cons w ws =>
        rw [hf] at h hmem
        obtain ⟨rfl, hrest⟩ := List.cons.inj h
        have hws : ws = [] := List.eq_nil_iff_forall_not_mem.mpr fun v hv => by
          refine hna ?_
          rw [← hrest, ← hmem v (List.mem_cons_of_mem _ hv)]
          exact List.mem_append_left _ hv
        subst hws
        exact List.forall_mem_cons.mpr ⟨by rw [hf, hg]; rfl, ih hrest hnds hds⟩

end Prototype

end Dpp.Wrapper
