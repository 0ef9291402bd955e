import Mathlib.Data.List.DropRight

/-!
# Texts as a POSIX shell sees them

* `completeLines`, `rest`: the lines that `read` succeeds on, and what is left at the end of file.
* `trim`, `substitution`, `joinLines`: what `read` and `$(...)` take off, and lines put together.
* `fields`: field splitting of an expansion; **`fields_eq_singleton_iff`**.
* `PathnameExpansion`: what becomes of an unquoted word.
* `echo`: the `echo` of the XSI option, which reads escapes; **`echoed_flatten`**: texts that each
  end in a plain character are written one after the other, up to a `\c`.
-/

namespace Lib.Shell

/-! ## Lines and fields -/

/-- The characters of the default `IFS`. -/
def isIfs (c : Char) : Bool := c == ' ' || c == '\t' || c == '\n'

/-- What `read` leaves of a line. -/
def trim (s : List Char) : List Char := (s.dropWhile isIfs).rdropWhile isIfs

/-- What `$(...)` leaves of an output. -/
def substitution (s : List Char) : List Char := s.rdropWhile (· == '\n')

def joinLines (ls : List (List Char)) : List Char := ['\n'].intercalate ls

/-- The lines of a file that end in a newline. -/
def completeLines (s : List Char) : List (List Char) := (s.splitOn '\n').dropLast

/-- What follows the last newline of a file. -/
def rest (s : List Char) : List Char := (s.splitOn '\n').getLast (List.splitOn_ne_nil _ _)

/-- The fields of an unquoted expansion. -/
def fields (s : List Char) : List (List Char) := (s.splitOnP isIfs).filter fun w => !w.isEmpty

theorem completeLines_append_rest (s : List Char) :
    completeLines s ++ [rest s] = s.splitOn '\n' := List.dropLast_append_getLast _

variable {s t w x y : List Char} {c : Char}

@[simp] theorem fields_nil : fields [] = [] := rfl

theorem fields_append_cons (hc : isIfs c) : fields (s ++ c :: t) = fields s ++ fields t := by
  rw [fields, List.splitOnP_append_cons s t hc, List.filter_append]
  rfl

theorem fields_cons (hc : isIfs c) : fields (c :: t) = fields t := by
  rw [← List.nil_append (c :: t), fields_append_cons hc, fields_nil, List.nil_append]

theorem fields_blank_append (h : ∀ c ∈ x, isIfs c) : fields (x ++ t) = fields t := by
  induction x with
  | nil => rfl
  | cons c x ih =>
    rw [List.cons_append, fields_cons (h c List.mem_cons_self)]
    exact ih fun d hd => h d (List.mem_cons_of_mem _ hd)

theorem fields_append_blank (h : ∀ c ∈ y, isIfs c) : fields (s ++ y) = fields s := by
  cases y with
  | nil => rw [List.append_nil]
  | cons c y =>
    have hy : fields y = [] := by
      rw [← List.append_nil y, fields_blank_append fun d hd => h d (List.mem_cons_of_mem _ hd),
        fields_nil]
    rw [fields_append_cons (h c List.mem_cons_self), hy, List.append_nil]

theorem fields_of_word (hw : w ≠ []) (h : ∀ c ∈ w, isIfs c = false) : fields w = [w] := by
  rw [fields, List.splitOnP_eq_singleton h, List.filter_singleton, List.isEmpty_eq_false_iff.mpr hw]
  rfl

/-- A word, and what follows it. -/
theorem fields_word_append (hw : w ≠ []) (h : ∀ c ∈ w, isIfs c = false)
    (ht : ∀ c, t.head? = some c → isIfs c) : fields (w ++ t) = w :: fields t := by
  cases t with
  | nil => rw [List.append_nil, fields_of_word hw h, fields_nil]
  | cons c t =>
    have hc := ht c rfl
    rw [fields_append_cons hc, fields_of_word hw h, fields_cons hc, List.singleton_append]

/-- What a text that does not begin with a blank begins with. -/
theorem isIfs_of_mem_takeWhile (hc : isIfs c = false) :
    ∀ d ∈ c :: s.takeWhile (!isIfs ·), isIfs d = false := by
  rintro d (_ | ⟨_, hd⟩)
  · exact hc
  · simpa using List.mem_takeWhile_imp hd

/-- A text that does not begin with a blank begins with a word. -/
theorem fields_cons_of_not (hc : isIfs c = false) :
    fields (c :: s) = (c :: s.takeWhile (!isIfs ·)) :: fields (s.dropWhile (!isIfs ·)) := by
  have ht : ∀ d, (s.dropWhile (!isIfs ·)).head? = some d → isIfs d := by
    intro d hd
    have := List.head?_dropWhile_not (!isIfs ·) s
    rw [hd] at this
    simpa using this
  rw [← fields_word_append (List.cons_ne_nil _ _) (isIfs_of_mem_takeWhile hc) ht, List.cons_append,
    List.takeWhile_append_dropWhile]

theorem fields_eq_nil_iff : fields s = [] ↔ ∀ c ∈ s, isIfs c := by
  refine ⟨fun h => ?_, fun h => ?_⟩
  · induction s with
    | nil => exact fun c hc => absurd hc List.not_mem_nil
    | cons c s ih =>
      cases hc : isIfs c with
      | false =>
        rw [fields_cons_of_not hc] at h
        exact absurd h (List.cons_ne_nil _ _)
      | true =>
        rw [fields_cons hc] at h
        exact List.forall_mem_cons.mpr ⟨hc, ih h⟩
  · rw [← List.nil_append s, fields_append_blank h, fields_nil]

/-- **One field** is a word between blanks. -/
theorem fields_eq_singleton_iff : fields s = [w] ↔ w ≠ [] ∧ (∀ c ∈ w, isIfs c = false) ∧
    ∃ x y, (∀ c ∈ x, isIfs c) ∧ (∀ c ∈ y, isIfs c) ∧ s = x ++ w ++ y := by
  constructor
  · intro h
    induction s with
    | nil => cases h
    | cons c s ih =>
      cases hc : isIfs c with
      | false =>
        rw [fields_cons_of_not hc] at h
        obtain ⟨rfl, hy⟩ := List.cons.inj h
        refine ⟨List.cons_ne_nil _ _, isIfs_of_mem_takeWhile hc, [], s.dropWhile (!isIfs ·), ?_,
          fields_eq_nil_iff.mp hy, ?_⟩
        · exact fun d hd => absurd hd List.not_mem_nil
        · rw [List.nil_append, List.cons_append, List.takeWhile_append_dropWhile]
      | true =>
        rw [fields_cons hc] at h
        obtain ⟨hw, hword, x, y, hx, hy, rfl⟩ := ih h
        exact ⟨hw, hword, c :: x, y, List.forall_mem_cons.mpr ⟨hc, hx⟩, hy, rfl⟩
  · rintro ⟨hw, hword, x, y, hx, hy, rfl⟩
    rw [fields_append_blank hy, fields_blank_append hx, fields_of_word hw hword]

theorem of_mem_splitOnP {p : Char → Bool} (h : w ∈ s.splitOnP p) : ∀ c ∈ w, p c = false := by
  induction s generalizing w with
  | nil =>
    obtain rfl := List.mem_singleton.mp (List.splitOnP_nil ▸ h)
    exact fun c hc => absurd hc List.not_mem_nil
  | cons a s ih =>
    rw [List.splitOnP_cons_eq_if_modifyHead] at h
    split_ifs at h with ha
    · rcases List.mem_cons.mp h with rfl | h
      · exact fun c hc => absurd hc List.not_mem_nil
      · exact ih h
    · obtain ⟨u, us, hu⟩ := List.exists_cons_of_ne_nil (List.splitOnP_ne_nil p s)
      rw [hu, List.modifyHead_cons] at h
      rcases List.mem_cons.mp h with rfl | h
      · refine List.forall_mem_cons.mpr ⟨by simpa using ha, ih ?_⟩
        rw [hu]
        exact List.mem_cons_self
      · refine ih ?_
        rw [hu]
        exact List.mem_cons_of_mem _ h

theorem of_mem_fields (h : w ∈ fields s) : w ≠ [] ∧ ∀ c ∈ w, isIfs c = false := by
  obtain ⟨hw, hne⟩ := List.mem_filter.mp h
  refine ⟨?_, of_mem_splitOnP hw⟩
  rintro rfl
  cases hne

theorem joinLines_singleton (l : List Char) : joinLines [l] = l := List.intercalate_singleton

theorem joinLines_cons_cons (l l' : List Char) (ls : List (List Char)) :
    joinLines (l :: l' :: ls) = l ++ (['\n'] ++ joinLines (l' :: ls)) := by
  rw [joinLines, List.intercalate_cons_cons, joinLines, List.append_assoc]

/-- The last line is at the end. -/
theorem suffix_joinLines_concat (ls : List (List Char)) (l : List Char) :
    l <:+ joinLines (ls ++ [l]) := by
  induction ls with
  | nil => exact ⟨[], (joinLines_singleton l).symm⟩
  | cons l' ls ih =>
    obtain ⟨l'', ls', hls⟩ := List.exists_cons_of_ne_nil (l := ls ++ [l]) (by simp)
    rw [List.cons_append, hls, joinLines_cons_cons, ← hls]
    exact ih.trans ((List.suffix_cons ..).trans (List.suffix_append ..))

/-- Newlines are blanks to field splitting. -/
theorem fields_joinLines (ls : List (List Char)) : fields (joinLines ls) = ls.flatMap fields := by
  induction ls with
  | nil => rfl
  | cons l ls ih =>
    cases ls with
    | nil => rw [joinLines_singleton, List.flatMap_singleton]
    | cons l' ls =>
      rw [joinLines_cons_cons, List.singleton_append, fields_append_cons rfl, ih,
        ← List.flatMap_cons]

theorem fields_substitution (s : List Char) : fields (substitution s) = fields s := by
  have h : substitution s ++ s.rtakeWhile (· == '\n') = s :=
    List.rdropWhile_append_rtakeWhile ..
  conv_rhs => rw [← h]
  refine (fields_append_blank fun c hc => ?_).symm
  have hn : c = '\n' := by simpa using List.mem_rtakeWhile_imp hc
  rw [hn]
  rfl

theorem substitution_of_not_mem (h : '\n' ∉ s) : substitution s = s := by
  refine List.rdropWhile_eq_self_iff.mpr fun hs hl => h ?_
  rw [← beq_iff_eq.mp hl]
  exact List.getLast_mem hs

/-- The newline at the end of a here document is taken off. -/
theorem substitution_concat_newline (h : c ≠ '\n') (hs : [c] <:+ s) :
    substitution (s ++ ['\n']) = s := by
  obtain ⟨u, rfl⟩ := hs
  rw [substitution, List.rdropWhile_concat_pos _ _ _ rfl,
    List.rdropWhile_concat_neg _ _ _ (by simpa using h)]

/-- Only what is behind the last other character is taken off. -/
theorem rdropWhile_append_cons {p : Char → Bool} (hc : p c = false) :
    (s ++ c :: t).rdropWhile p = s ++ c :: t.rdropWhile p := by
  induction t using List.reverseRecOn with
  | nil => rw [List.rdropWhile_concat_neg _ _ _ (by simp [hc]), List.rdropWhile_nil]
  | append_singleton t d ih =>
    rw [← List.cons_append, ← List.append_assoc]
    by_cases hd : p d
    · rw [List.rdropWhile_concat_pos _ _ _ hd, List.rdropWhile_concat_pos _ _ _ hd, ih]
    · rw [List.rdropWhile_concat_neg _ _ _ hd, List.rdropWhile_concat_neg _ _ _ hd,
        List.append_assoc, List.cons_append]

/-- With two lines there is a newline between them. -/
theorem newline_mem_capture {l l' : List Char} {ls : List (List Char)} (hl : l' ≠ [])
    (h : '\n' ∉ l') : '\n' ∈ substitution (joinLines (l :: l' :: ls)) := by
  obtain ⟨c, u, rfl⟩ := List.exists_cons_of_ne_nil hl
  have hc : c ≠ '\n' := fun hc => h (hc ▸ List.mem_cons_self)
  have hjoin : ∃ t, joinLines (l :: (c :: u) :: ls) = (l ++ ['\n']) ++ c :: t := by
    cases ls with
    | nil => exact ⟨u, by simp [joinLines_cons_cons, joinLines_singleton]⟩
    | cons l' ls => exact ⟨u ++ '\n' :: joinLines (l' :: ls), by simp [joinLines_cons_cons]⟩
  obtain ⟨t, ht⟩ := hjoin
  rw [ht, substitution, rdropWhile_append_cons (by simpa using hc)]
  simp

/-! ## Pathname expansion -/

/-- What an unquoted word becomes; without a `*`, a `?` or a `[` it stays as it is. -/
structure PathnameExpansion where
  expand : List Char → List (List Char)
  expand_plain : ∀ w, (∀ c ∈ w, c ≠ '*' ∧ c ≠ '?' ∧ c ≠ '[') → expand w = [w]

/-- In an empty directory nothing matches. -/
def PathnameExpansion.emptyDirectory : PathnameExpansion where
  expand w := [w]
  expand_plain _ _ := rfl

/-! ## `echo` -/

/-- What `echo` has read of an escape. -/
inductive Escape
  | plain
  | backslash
  | octal (v k : ℕ)
  | stopped
  deriving DecidableEq

def isOctal (c : Char) : Bool := '0' ≤ c && c ≤ '7'

/-- One character of the argument, and what is written for it. -/
def Escape.next : Escape → Char → Escape × List Char
  | plain, c => if c = '\\' then (backslash, []) else (plain, [c])
  | backslash, 'a' => (plain, ['\x07'])
  | backslash, 'b' => (plain, ['\x08'])
  | backslash, 'c' => (stopped, [])
  | backslash, 'f' => (plain, ['\x0c'])
  | backslash, 'n' => (plain, ['\n'])
  | backslash, 'r' => (plain, ['\r'])
  | backslash, 't' => (plain, ['\t'])
  | backslash, 'v' => (plain, ['\x0b'])
  | backslash, '\\' => (plain, ['\\'])
  | backslash, '0' => (octal 0 0, [])
  | backslash, c => (plain, ['\\', c])
  | octal v k, c =>
    if k < 3 ∧ isOctal c then (octal (8 * v + (c.toNat - '0'.toNat)) (k + 1), [])
    else if c = '\\' then (backslash, [Char.ofNat (v % 256)])
    else (plain, [Char.ofNat (v % 256), c])
  | stopped, _ => (stopped, [])

def Escape.run : Escape → List Char → Escape × List Char
  | e, [] => (e, [])
  | e, c :: s => (((e.next c).1.run s).1, (e.next c).2 ++ ((e.next c).1.run s).2)

/-- What is written at the end of the argument; not even a newline after `\c`. -/
def Escape.close : Escape → List Char
  | plain => ['\n']
  | backslash => ['\\', '\n']
  | octal v _ => [Char.ofNat (v % 256), '\n']
  | stopped => []

/-- What a text contributes to the output. -/
def echoed (s : List Char) : List Char := (Escape.plain.run s).2

/-- The text has a `\c`. -/
def stops (s : List Char) : Prop := (Escape.plain.run s).1 = .stopped

instance (s : List Char) : Decidable (stops s) := inferInstanceAs (Decidable (_ = _))

/-- What `echo` writes. -/
def echo (s : List Char) : List Char := echoed s ++ (Escape.plain.run s).1.close

/-- A text that ends in a character which no escape goes on with. -/
def Closed (s : List Char) : Prop := ∃ c, [c] <:+ s ∧ c ≠ '\\' ∧ isOctal c = false

variable {e : Escape} {ts : List (List Char)}

theorem Escape.run_append :
    e.run (s ++ t) = (((e.run s).1.run t).1, (e.run s).2 ++ ((e.run s).1.run t).2) := by
  induction s generalizing e with
  | nil => rfl
  | cons c s ih => rw [List.cons_append, run, ih, run, List.append_assoc]

theorem Escape.run_stopped (s : List Char) : stopped.run s = (stopped, []) := by
  induction s with
  | nil => rfl
  | cons c s ih => rw [run, next, ih, List.append_nil]

/-- Behind such a character no escape is open. -/
theorem Closed.run_eq (h : Closed s) : (e.run s).1 = .plain ∨ (e.run s).1 = .stopped := by
  obtain ⟨c, ⟨u, rfl⟩, hc, ho⟩ := h
  rw [Escape.run_append]
  change ((e.run u).1.next c).1 = .plain ∨ ((e.run u).1.next c).1 = .stopped
  cases (e.run u).1 with
  | plain => exact .inl (by rw [Escape.next, if_neg hc])
  | backslash =>
    rw [Escape.next.eq_def]
    split <;> simp_all [isOctal]
  | octal v k => exact .inl (by rw [Escape.next, if_neg (by simp [ho]), if_neg hc])
  | stopped => exact .inr rfl

theorem Closed.run_plain (h : Closed s) (hs : ¬ stops s) :
    Escape.plain.run s = (.plain, echoed s) :=
  Prod.ext (h.run_eq.resolve_right hs) rfl

/-- Texts one behind the other. -/
theorem run_flatten (h : ∀ t ∈ ts, Closed t) (hs : ∀ t ∈ ts, ¬ stops t) :
    Escape.plain.run ts.flatten = (.plain, (ts.map echoed).flatten) := by
  induction ts with
  | nil => rfl
  | cons t ts ih =>
    obtain ⟨ht, h⟩ := List.forall_mem_cons.mp h
    obtain ⟨hst, hs⟩ := List.forall_mem_cons.mp hs
    rw [List.flatten_cons, Escape.run_append, ht.run_plain hst, ih h hs]
    rfl

/-- **Texts one behind the other** are written one behind the other. -/
theorem echo_flatten (h : ∀ t ∈ ts, Closed t) (hs : ∀ t ∈ ts, ¬ stops t) :
    echo ts.flatten = (ts.map echoed).flatten ++ ['\n'] := by
  rw [echo, echoed, run_flatten h hs]
  rfl

/-- A `\c` stops the output in its text. -/
theorem stops_flatten (h : ∀ t ∈ ts, Closed t) (hs : ∃ t ∈ ts, stops t) :
    stops ts.flatten ∧ (echoed ts.flatten).length ≤ (ts.map echoed).flatten.length := by
  induction ts with
  | nil =>
    obtain ⟨t, ht, -⟩ := hs
    exact absurd ht List.not_mem_nil
  | cons t ts ih =>
    obtain ⟨ht, h⟩ := List.forall_mem_cons.mp h
    have hrun : Escape.plain.run (t ++ ts.flatten) = _ := Escape.run_append
    rw [stops, echoed, List.flatten_cons, hrun, List.map_cons, List.flatten_cons,
      List.length_append, List.length_append]
    by_cases hst : stops t
    · rw [show (Escape.plain.run t).1 = .stopped from hst, Escape.run_stopped]
      exact ⟨rfl, Nat.add_le_add_left (Nat.zero_le _) _⟩
    · obtain ⟨u, hu, hus⟩ := hs
      have hs : ∃ u ∈ ts, stops u := by
        rcases List.mem_cons.mp hu with rfl | hu
        · exact absurd hus hst
        · exact ⟨u, hu, hus⟩
      obtain ⟨hstop, hlen⟩ := ih h hs
      rw [ht.run_plain hst]
      exact ⟨hstop, Nat.add_le_add_left hlen _⟩

/-- A text that starts with a character no escape has a use for, and leaves none open. -/
def neutral : List Char → Bool
  | [] => false
  | c :: s => c ≠ '\\' && c ≠ 'c' && !isOctal c && (Escape.plain.run s).1 = .plain

theorem run_neutral (h : neutral s) (he : e ≠ .stopped) : (e.run s).1 = .plain := by
  cases s with
  | nil => cases h
  | cons c s =>
    simp only [neutral, Bool.and_eq_true, decide_eq_true_eq, Bool.not_eq_true'] at h
    obtain ⟨⟨⟨hb, hc⟩, ho⟩, hs⟩ := h
    have hnext : (e.next c).1 = .plain := by
      cases e with
      | plain => rw [Escape.next, if_neg hb]
      | backslash =>
        rw [Escape.next.eq_def]
        split <;> simp_all [isOctal]
      | octal v k => rw [Escape.next, if_neg (by simp [ho]), if_neg hb]
      | stopped => exact absurd rfl he
    rw [Escape.run, hnext, hs]

theorem stops_text (h : (Escape.plain.run s).1 = .plain) : stops s ↔ False := by
  rw [stops, h]
  exact iff_of_false Escape.noConfusion not_false

/-- A text in front. -/
theorem stops_text_append (h : (Escape.plain.run s).1 = .plain) : stops (s ++ t) ↔ stops t := by
  rw [stops, Escape.run_append, h, stops]

/-- A value and a text behind it. -/
theorem stops_append_text (h : neutral t) : stops (s ++ t) ↔ stops s := by
  rw [stops, Escape.run_append]
  by_cases hs : stops s
  · rw [show (Escape.plain.run s).1 = .stopped from hs, Escape.run_stopped]
    exact iff_of_true rfl hs
  · rw [run_neutral h hs]
    exact iff_of_false nofun hs

/-- A value, a text and the rest. -/
theorem stops_append_text_append (h : neutral t) : stops (s ++ (t ++ w)) ↔ stops s ∨ stops w := by
  rw [stops, Escape.run_append, Escape.run_append]
  by_cases hs : stops s
  · rw [show (Escape.plain.run s).1 = .stopped from hs, Escape.run_stopped, Escape.run_stopped]
    exact iff_of_true rfl (.inl hs)
  · rw [run_neutral h hs]
    exact (or_iff_right hs).symm

theorem length_echo_le (h : ∀ t ∈ ts, Closed t) :
    (echo ts.flatten).length ≤ (ts.map echoed).flatten.length + 1 := by
  by_cases hs : ∃ t ∈ ts, stops t
  · obtain ⟨hstop, hlen⟩ := stops_flatten h hs
    rw [echo, show (Escape.plain.run ts.flatten).1 = .stopped from hstop, Escape.close,
      List.append_nil]
    exact Nat.le_succ_of_le hlen
  · rw [echo_flatten h fun t ht hst => hs ⟨t, ht, hst⟩, List.length_append, List.length_singleton]

/-- **A `\c` loses** what is behind it. -/
theorem length_echo_lt (h : ∀ t ∈ ts, Closed t) (hs : ∃ t ∈ ts, stops t) :
    (echo ts.flatten).length < (ts.map echoed).flatten.length + 1 := by
  obtain ⟨hstop, hlen⟩ := stops_flatten h hs
  rw [echo, show (Escape.plain.run ts.flatten).1 = .stopped from hstop, Escape.close,
    List.append_nil]
  exact Nat.lt_succ_of_le hlen

end Lib.Shell
