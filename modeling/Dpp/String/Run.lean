import Dpp.Lib.Objects
import Dpp.Lib.System
import Dpp.String.Replace

/-!
# Programs with strings

Any number of strings, constructed, changed, copied and moved into each other, exchanged and
destroyed in any order, against the same program with lists of characters.

* `Edit`, `Op`: the changes of one string, and what a program does to its objects; `Ops`: given
  what an operation does to one of them.
* `strings`: the program with strings; `texts`: the same with lists, which stops where a position
  is not in the list.
* `Holds`: the string represents the list in a bounded block; `Edit.Fits`: what an edit needs in
  addition.
* **`Edit.apply_holds`**, **`agree_step`**: an edit and an operation keep the agreement.
* **`strings_agree`**: in every program that works with lists the strings work too, read as the
  lists do, and give their storage back.
-/

namespace Dpp.BasicString

open Lib

/-- A change of one string. -/
inductive Edit
  | append (cs : List UInt8)
  | appendOwn (k n : ℕ)
  | appendN (n : ℕ) (c : UInt8)
  | insert (i : ℕ) (cs : List UInt8)
  | insertOwn (i k n : ℕ)
  | insertN (i n : ℕ) (c : UInt8)
  | insertChar (i : ℕ) (c : UInt8)
  | erase (i j : ℕ)
  | replace (i j : ℕ) (cs : List UInt8)
  | replaceN (i j n : ℕ) (c : UInt8)
  | replaceOwn (i j k n : ℕ)
  | assign (cs : List UInt8)
  | assignOwn (k n : ℕ)
  | assignN (n : ℕ) (c : UInt8)
  | resize (n : ℕ) (c : UInt8)
  | setChar (i : ℕ) (c : UInt8)
  | popBack
  | clear
  | reserve (n : ℕ)
  | setCapacity (n : ℕ)
  | shrinkToFit

namespace Edit

def apply (s : BasicString) : Edit → Option BasicString
  | append cs => s.append (.chars cs)
  | appendOwn k n => s.beginPtr.bind fun p => s.append (.own (p.plus k) n)
  | appendN n c => s.appendN n c
  | insert i cs => s.insertChars i cs
  | insertOwn i k n => s.insertOwn i k n
  | insertN i n c => s.insertN i n c
  | insertChar i c => s.insertChar i c
  | erase i j => s.erase i j
  | replace i j cs => s.replaceChars i j cs
  | replaceN i j n c => s.replaceN i j n c
  | replaceOwn i j k n => s.replaceOwn i j k n
  | assign cs => s.assign (.chars cs)
  | assignOwn k n => s.beginPtr.bind fun p => s.assign (.own (p.plus k) n)
  | assignN n c => s.assignN n c
  | resize n c => s.resize n c
  | setChar i c => s.setChar i c
  | popBack => s.popBack
  | clear => s.clear
  | reserve n => s.reserve n
  | setCapacity n => s.setCapacity n
  | shrinkToFit => s.shrinkToFit

/-- The change of the list it stands for. -/
def text (l : List UInt8) : Edit → Option (List UInt8)
  | append cs => some (l ++ cs)
  | appendOwn k n => if k + n ≤ l.length then some (l ++ (l.drop k).take n) else none
  | appendN n c => some (l ++ List.replicate n c)
  | insert i cs => if i ≤ l.length then some (l.take i ++ (cs ++ l.drop i)) else none
  | insertOwn i k n =>
    if i ≤ l.length ∧ k + n ≤ l.length then
      some (l.take i ++ ((l.drop k).take n ++ l.drop i)) else none
  | insertN i n c =>
    if i ≤ l.length then some (l.take i ++ (List.replicate n c ++ l.drop i)) else none
  | insertChar i c => if i ≤ l.length then some (l.take i ++ ([c] ++ l.drop i)) else none
  | erase i j => if i ≤ j ∧ j ≤ l.length then some (l.take i ++ l.drop j) else none
  | replace i j cs =>
    if i ≤ j ∧ j ≤ l.length then some (l.take i ++ (cs ++ l.drop j)) else none
  | replaceN i j n c =>
    if i ≤ j ∧ j ≤ l.length then some (l.take i ++ (List.replicate n c ++ l.drop j)) else none
  | replaceOwn i j k n =>
    if (i ≤ j ∧ j ≤ l.length) ∧ k + n ≤ l.length then
      some (l.take i ++ ((l.drop k).take n ++ l.drop j)) else none
  | assign cs => some cs
  | assignOwn k n => if k + n ≤ l.length then some ((l.drop k).take n) else none
  | assignN n c => some (List.replicate n c)
  | resize n c => some (l.take n ++ List.replicate (n - l.length) c)
  | setChar i c => if i < l.length then some (l.set i c) else none
  | popBack => if l = [] then none else some l.dropLast
  | clear => some []
  | reserve _ => some l
  | setCapacity n => some (l.take n)
  | shrinkToFit => some l

/-- No characters of the string itself are inserted in a way that leaves less room than there is
in the object, or put over some of themselves where that takes a new block, and no room is asked
for that the object would have; `m` bounds the room a program asks for. -/
def Fits (m : ℕ) (l : List UInt8) : Edit → Prop
  | insertOwn _ _ n => n = 0 ∨ 23 ≤ l.length + n
  | replaceOwn i j k n =>
    n ≤ j - i ∨ (j < k ∨ k + n ≤ i) ∧ 23 ≤ l.length + (n - (j - i))
  | reserve n => n ≤ 2 * m
  | setCapacity n => (n ≤ l.length ∨ 23 < n) ∧ n ≤ 2 * m
  | _ => True

end Edit

/-- What can be done with the characters of another string. -/
inductive Use
  | append
  | insert (i : ℕ)
  | replace (i j : ℕ)
  | assign

def Use.edit (cs : List UInt8) : Use → Edit
  | append => .append cs
  | insert i => .insert i cs
  | replace i j => .replace i j cs
  | assign => .assign cs

/-- The operations of a program on its strings, which it names by numbers. -/
inductive Op
  | construct (i : ℕ)
  | rangeInitialize (i : ℕ) (cs : List UInt8)
  | sizeInitialize (i n : ℕ) (c : UInt8)
  | copy (i j : ℕ)
  | move (i j : ℕ)
  | edit (i : ℕ) (e : Edit)
  | use (i j : ℕ) (u : Use)
  | swap (i j : ℕ)
  | destroy (i : ℕ)

/-- What a program does to its objects, given what an operation does to one of them. -/
structure Ops (V : Type) where
  construct : Option V
  rangeInitialize : List UInt8 → Option V
  sizeInitialize : ℕ → UInt8 → Option V
  contents : V → Option (List UInt8)
  move : V → Option (V × V)
  edit : Edit → V → Option V
  destroy : V → Option Unit

namespace Ops

variable {V : Type} (o : Ops V)

/-- A new object. -/
def add (v : Option V) (env : ℕ → Option V) (i : ℕ) : Option (ℕ → Option V) :=
  match env i with
  | none => v.map fun v => Function.update env i (some v)
  | some _ => none

/-- An operation on one object. -/
def update (f : V → Option V) (env : ℕ → Option V) (i : ℕ) : Option (ℕ → Option V) := do
  let v ← env i
  let v ← f v
  return Function.update env i (some v)

/-- One operation. -/
def step (env : ℕ → Option V) : Op → Option (ℕ → Option V)
  | .construct i => add o.construct env i
  | .rangeInitialize i cs => add (o.rangeInitialize cs) env i
  | .sizeInitialize i n c => add (o.sizeInitialize n c) env i
  | .copy i j =>
    (env j).bind fun x => (o.contents x).bind fun cs => add (o.rangeInitialize cs) env i
  | .move i j =>
    match env i with
    | none => (env j).bind fun x => (o.move x).map fun p =>
      Function.update (Function.update env j (some p.2)) i (some p.1)
    | some _ => none
  | .edit i e => update (o.edit e) env i
  | .use i j u =>
    if i = j then none
    else (env j).bind fun x => (o.contents x).bind fun cs => update (o.edit (u.edit cs)) env i
  | .swap i j => (env i).bind fun x => (env j).map fun y =>
    Function.update (Function.update env i (some y)) j (some x)
  | .destroy i => (env i).bind fun x => (o.destroy x).map fun _ => Function.update env i none

/-- The programs that start without objects. -/
def system : System (ℕ → Option V) Op where
  init env := env = fun _ => none
  step := o.step

end Ops

/-- The operations of `eastl::string`. -/
def strings : Ops BasicString where
  construct := construct
  rangeInitialize := rangeInitialize
  sizeInitialize := sizeInitialize
  contents := contents
  move := constructMove
  edit e s := e.apply s
  destroy s := s.destruct.map fun _ => ()

/-- The operations on lists they stand for. -/
def texts : Ops (List UInt8) where
  construct := some []
  rangeInitialize := some
  sizeInitialize n c := some (List.replicate n c)
  contents := some
  move l := some (l, [])
  edit e l := e.text l
  destroy _ := some ()

/-- What an operation needs in addition to a list. -/
def Fits (m : ℕ) (ls : ℕ → Option (List UInt8)) : Op → Prop
  | .edit i e => ∀ l, ls i = some l → e.Fits m l
  | _ => True

/-- No list has more than `m` characters. -/
def Short (m : ℕ) (ls : ℕ → Option (List UInt8)) : Prop := Each (fun l => l.length ≤ m) ls

/-- The string represents the list, in a block that is not smaller than the object and not larger
than twice what `m` characters need. -/
def Holds (m : ℕ) (s : BasicString) (l : List UInt8) : Prop :=
  ∃ b cap, Rep s b cap l ∧ 23 ≤ cap ∧ cap ≤ max 23 (2 * m)

variable {s s' : BasicString} {b cap cap' m n i : ℕ} {l l' cs : List UInt8}
  {env : ℕ → Option BasicString} {ls ls' : ℕ → Option (List UInt8)}

/-! ## One edit -/

theorem not_cramped (h : 23 ≤ cap) : ¬ Cramped b cap n := fun hno => by
  have := hno.2.2
  omega

theorem Holds.grown (hrep : Rep s b cap' l) (hg : Grows cap cap' n) (hn : n ≤ m) (h : 23 ≤ cap)
    (hcap : cap ≤ max 23 (2 * m)) : Holds m s l := by
  obtain ⟨hge, hle⟩ := hg
  exact ⟨b, cap', hrep, by omega, by omega⟩

theorem Holds.grownOwn {b' k : ℕ} (hrep : Rep s b' cap' l) (hg : OwnGrows b cap b' cap' k n)
    (hn : k + n ≤ m) (hroom : n = 0 ∨ 23 ≤ k + n) (h : 23 ≤ cap) (hcap : cap ≤ max 23 (2 * m)) :
    Holds m s l := by
  rw [OwnGrows] at hg
  split_ifs at hg with hc
  · obtain ⟨-, rfl⟩ := hg
    exact ⟨b', _, hrep, by omega, by omega⟩
  · exact .grown hrep hg hn h hcap

theorem Holds.append (h : Holds m s l) (hm : m < 2 ^ 61) (hl : (l ++ cs).length ≤ m) :
    ∃ s', s.append (.chars cs) = some s' ∧ Holds m s' (l ++ cs) := by
  obtain ⟨b, cap, hrep, hge, hcap⟩ := h
  obtain ⟨s', b', cap', hs', hrep', hg⟩ := append_rep hrep (.chars cs) (by omega)
  exact ⟨s', hs', .grown hrep' hg hl hge hcap⟩

theorem Holds.appendOwn {k : ℕ} (h : Holds m s l) (hm : m < 2 ^ 61) (hk : k + n ≤ l.length)
    (hl : (l ++ (l.drop k).take n).length ≤ m) :
    ∃ s', (s.beginPtr.bind fun p => s.append (.own (p.plus k) n)) = some s' ∧
      Holds m s' (l ++ (l.drop k).take n) := by
  obtain ⟨b, cap, hrep, hge, hcap⟩ := h
  obtain ⟨s', b', cap', hs', hrep', hg⟩ := append_rep hrep (.own k n hk) (by omega)
  refine ⟨s', ?_, .grown hrep' hg hl hge hcap⟩
  rw [hrep.lay.beginPtr, Option.bind_some, plus_begin]
  exact hs'

theorem Holds.appendN {c : UInt8} (h : Holds m s l) (hm : m < 2 ^ 61)
    (hl : (l ++ List.replicate n c).length ≤ m) :
    ∃ s', s.appendN n c = some s' ∧ Holds m s' (l ++ List.replicate n c) := by
  obtain ⟨b, cap, hrep, hge, hcap⟩ := h
  rw [List.length_append, List.length_replicate] at hl
  obtain ⟨s', b', cap', hs', hrep', hg⟩ := appendN_rep hrep n c (by omega) (not_cramped hge)
  exact ⟨s', hs', .grown hrep' hg hl hge hcap⟩

theorem Holds.insertChars (h : Holds m s l) (hm : m < 2 ^ 61) (hi : i ≤ l.length)
    (hl : (l.take i ++ (cs ++ l.drop i)).length ≤ m) :
    ∃ s', s.insertChars i cs = some s' ∧ Holds m s' (l.take i ++ (cs ++ l.drop i)) := by
  obtain ⟨b, cap, hrep, hge, hcap⟩ := h
  rw [← List.take_append_drop i l] at hrep
  obtain ⟨s', b', cap', hs', hrep', hg⟩ := insertChars_rep hrep cs (by omega)
  rw [List.length_take_of_le hi] at hs'
  exact ⟨s', hs', .grown hrep' hg hl hge hcap⟩

theorem Holds.insertOwn {k : ℕ} (h : Holds m s l) (hm : m < 2 ^ 61) (hi : i ≤ l.length)
    (hk : k + n ≤ l.length) (hroom : n = 0 ∨ 23 ≤ l.length + n)
    (hl : (l.take i ++ ((l.drop k).take n ++ l.drop i)).length ≤ m) :
    ∃ s', s.insertOwn i k n = some s' ∧
      Holds m s' (l.take i ++ ((l.drop k).take n ++ l.drop i)) := by
  obtain ⟨b, cap, hrep, hge, hcap⟩ := h
  have hlen : (l.take i ++ ((l.drop k).take n ++ l.drop i)).length = l.length + n := by
    simp only [List.length_append, List.length_take, List.length_drop]
    omega
  rw [hlen] at hl
  have hsplit : l.take i ++ l.drop i = l := List.take_append_drop i l
  rw [← hsplit] at hrep
  obtain ⟨s', b', cap', hs', hrep', hg⟩ := insertOwn_rep hrep (k := k) (n := n)
    (by rwa [hsplit]) (by rw [hsplit]; omega)
  rw [List.length_take_of_le hi] at hs'
  rw [hsplit] at hrep' hg
  exact ⟨s', hs', .grownOwn hrep' hg hl hroom hge hcap⟩

theorem Holds.insertChar {c : UInt8} (h : Holds m s l) (hm : m < 2 ^ 61) (hi : i ≤ l.length)
    (hl : (l.take i ++ ([c] ++ l.drop i)).length ≤ m) :
    ∃ s', s.insertChar i c = some s' ∧ Holds m s' (l.take i ++ ([c] ++ l.drop i)) := by
  obtain ⟨b, cap, hrep, hge, hcap⟩ := h
  have hlen : (l.take i ++ ([c] ++ l.drop i)).length = (l.take i ++ l.drop i).length + 1 := by
    simp only [List.length_append, List.length_singleton]
    omega
  rw [← List.take_append_drop i l] at hrep
  obtain ⟨s', b', cap', hs', hrep', hg⟩ := insertChar_rep hrep c (by omega) (not_cramped hge)
  rw [List.length_take_of_le hi] at hs'
  exact ⟨s', hs', .grown hrep' hg hl hge hcap⟩

theorem Holds.replaceChars {j : ℕ} (h : Holds m s l) (hm : m < 2 ^ 61) (hij : i ≤ j)
    (hj : j ≤ l.length) (hl : (l.take i ++ (cs ++ l.drop j)).length ≤ m) :
    ∃ s', s.replaceChars i j cs = some s' ∧ Holds m s' (l.take i ++ (cs ++ l.drop j)) := by
  obtain ⟨b, cap, hrep, hge, hcap⟩ := h
  obtain ⟨hsplit, hi, hmid⟩ := split_range hij hj
  rw [hsplit] at hrep
  obtain ⟨s', b', cap', hs', hrep', hg⟩ := replaceChars_rep hrep cs (by omega)
  rw [hi, hmid, Nat.add_sub_cancel' hij] at hs'
  exact ⟨s', hs', .grown hrep' hg hl hge hcap⟩

theorem Holds.replaceOwn {j k : ℕ} (h : Holds m s l) (hm : m < 2 ^ 61) (hij : i ≤ j)
    (hj : j ≤ l.length) (hk : k + n ≤ l.length)
    (hroom : n ≤ j - i ∨ (j < k ∨ k + n ≤ i) ∧ 23 ≤ l.length + (n - (j - i)))
    (hl : (l.take i ++ ((l.drop k).take n ++ l.drop j)).length ≤ m) :
    ∃ s', s.replaceOwn i j k n = some s' ∧
      Holds m s' (l.take i ++ ((l.drop k).take n ++ l.drop j)) := by
  obtain ⟨b, cap, hrep, hge, hcap⟩ := h
  have hlen : (l.take i ++ ((l.drop k).take n ++ l.drop j)).length = i + n + (l.length - j) := by
    simp only [List.length_append, List.length_take, List.length_drop]
    omega
  obtain ⟨hsplit, hi, hmid⟩ := split_range hij hj
  generalize hparts : l.take i ++ ((l.drop i).take (j - i) ++ l.drop j) = l₀ at hsplit
  subst hsplit
  rw [← hparts] at hrep
  by_cases hle : n ≤ j - i
  · obtain ⟨s', hs', hrep'⟩ := replaceOwn_fewer hrep (k := k) (n := n) (by rwa [hparts])
      (by rwa [hmid])
    rw [hi, hmid, Nat.add_sub_cancel' hij] at hs'
    rw [hparts] at hrep'
    exact ⟨s', hs', b, cap, hrep', hge, hcap⟩
  · obtain ⟨hapart, hroom⟩ := hroom.resolve_left hle
    obtain ⟨s', b', cap', hs', hrep', hg⟩ := replaceOwn_apart hrep (k := k) (n := n)
      (by rwa [hparts]) (by omega) (by rw [hi, hmid]; omega) (by rw [hparts]; omega)
    rw [hi, hmid, Nat.add_sub_cancel' hij] at hs'
    rw [hparts] at hrep'
    rw [hparts, hmid] at hg
    exact ⟨s', hs', .grownOwn hrep' hg (by omega) (.inr hroom) hge hcap⟩

theorem Holds.assign (h : Holds m s l) (hm : m < 2 ^ 61) (hl : cs.length ≤ m) :
    ∃ s', s.assign (.chars cs) = some s' ∧ Holds m s' cs := by
  obtain ⟨b, cap, hrep, hge, hcap⟩ := h
  obtain ⟨s', b', cap', hs', hrep', hg⟩ := assign_rep hrep (.chars cs) (by omega)
  exact ⟨s', hs', .grown hrep' hg hl hge hcap⟩

theorem Holds.assignOwn {k : ℕ} (h : Holds m s l) (hm : m < 2 ^ 61) (hk : k + n ≤ l.length)
    (hl : ((l.drop k).take n).length ≤ m) :
    ∃ s', (s.beginPtr.bind fun p => s.assign (.own (p.plus k) n)) = some s' ∧
      Holds m s' ((l.drop k).take n) := by
  obtain ⟨b, cap, hrep, hge, hcap⟩ := h
  obtain ⟨s', b', cap', hs', hrep', hg⟩ := assign_rep hrep (.own k n hk) (by omega)
  refine ⟨s', ?_, .grown hrep' hg hl hge hcap⟩
  rw [hrep.lay.beginPtr, Option.bind_some, plus_begin]
  exact hs'

theorem Holds.assignN {c : UInt8} (h : Holds m s l) (hm : m < 2 ^ 61)
    (hl : (List.replicate n c).length ≤ m) :
    ∃ s', s.assignN n c = some s' ∧ Holds m s' (List.replicate n c) := by
  obtain ⟨b, cap, hrep, hge, hcap⟩ := h
  rw [List.length_replicate] at hl
  obtain ⟨s', b', cap', hs', hrep', hg⟩ := assignN_rep hrep n c (by omega) (not_cramped hge)
  exact ⟨s', hs', .grown hrep' hg hl hge hcap⟩

theorem Holds.resize {c : UInt8} (h : Holds m s l) (hm : m < 2 ^ 61)
    (hl : (l.take n ++ List.replicate (n - l.length) c).length ≤ m) :
    ∃ s', s.resize n c = some s' ∧
      Holds m s' (l.take n ++ List.replicate (n - l.length) c) := by
  obtain ⟨b, cap, hrep, hge, hcap⟩ := h
  have hn : n ≤ m := by
    rw [List.length_append, List.length_take, List.length_replicate] at hl
    omega
  obtain ⟨s', b', cap', hs', hrep', hg⟩ := resize_rep hrep n c (by omega) (not_cramped hge)
  exact ⟨s', hs', .grown hrep' hg hn hge hcap⟩

/-- An edit that leaves the block as it is. -/
theorem Holds.inPlace {f : BasicString → Option BasicString} (h : Holds m s l)
    (hf : ∀ b cap, Rep s b cap l → ∃ s', f s = some s' ∧ Rep s' b cap l') :
    ∃ s', f s = some s' ∧ Holds m s' l' := by
  obtain ⟨b, cap, hrep, hge, hcap⟩ := h
  obtain ⟨s', hs', hrep'⟩ := hf b cap hrep
  exact ⟨s', hs', b, cap, hrep', hge, hcap⟩

theorem Holds.reserve (h : Holds m s l) (hm : m < 2 ^ 61) (hn : n ≤ 2 * m) :
    ∃ s', s.reserve n = some s' ∧ Holds m s' l := by
  obtain ⟨b, cap, hrep, hge, hcap⟩ := h
  obtain ⟨s', b', cap', hs', hrep', hmin, hmax⟩ := reserve_rep hrep (n := n) (by omega) (by omega)
  exact ⟨s', hs', b', cap', hrep', by omega, by omega⟩

theorem Holds.setCapacity (h : Holds m s l) (hm : m < 2 ^ 61) (hn : n ≤ l.length ∨ 23 < n)
    (hn' : n ≤ 2 * m) : ∃ s', s.setCapacity n = some s' ∧ Holds m s' (l.take n) := by
  obtain ⟨b, cap, hrep, hge, hcap⟩ := h
  obtain ⟨s', b', cap', hs', hrep', -, hmin, hmax⟩ :=
    setCapacity_rep hrep (n := n) (by omega) (by omega)
  exact ⟨s', hs', b', cap', hrep', by omega, by omega⟩

theorem Holds.shrinkToFit (h : Holds m s l) : ∃ s', s.shrinkToFit = some s' ∧ Holds m s' l := by
  obtain ⟨b, cap, hrep, hge, hcap⟩ := h
  obtain ⟨s', b', cap', hs', hrep', hmin, hmax⟩ := shrinkToFit_rep hrep
  exact ⟨s', hs', b', cap', hrep', by omega, by omega⟩

/-- **An edit that is possible on the list is possible on the string that holds it.** -/
theorem Edit.apply_holds {e : Edit} (h : Holds m s l) (ht : e.text l = some l') (hf : e.Fits m l)
    (hl : l'.length ≤ m) (hm : m < 2 ^ 61) : ∃ s', e.apply s = some s' ∧ Holds m s' l' := by
  cases e with
  | append cs =>
    cases ht
    exact h.append hm hl
  | appendOwn k n =>
    obtain ⟨hk, ⟨⟩⟩ := Option.ite_none_right_eq_some.mp ht
    exact h.appendOwn hm hk hl
  | appendN n c =>
    cases ht
    exact h.appendN hm hl
  | insert i cs =>
    obtain ⟨hi, ⟨⟩⟩ := Option.ite_none_right_eq_some.mp ht
    exact h.insertChars hm hi hl
  | insertOwn i k n =>
    obtain ⟨⟨hi, hk⟩, ⟨⟩⟩ := Option.ite_none_right_eq_some.mp ht
    exact h.insertOwn hm hi hk hf hl
  | insertN i n c =>
    obtain ⟨hi, ⟨⟩⟩ := Option.ite_none_right_eq_some.mp ht
    exact h.insertChars hm hi hl
  | insertChar i c =>
    obtain ⟨hi, ⟨⟩⟩ := Option.ite_none_right_eq_some.mp ht
    exact h.insertChar hm hi hl
  | erase i j =>
    obtain ⟨⟨hij, hj⟩, ⟨⟩⟩ := Option.ite_none_right_eq_some.mp ht
    exact h.inPlace (f := fun s => s.erase i j) fun _ _ hrep => erase_rep_take hrep hij hj
  | replace i j cs =>
    obtain ⟨⟨hij, hj⟩, ⟨⟩⟩ := Option.ite_none_right_eq_some.mp ht
    exact h.replaceChars hm hij hj hl
  | replaceN i j n c =>
    obtain ⟨⟨hij, hj⟩, ⟨⟩⟩ := Option.ite_none_right_eq_some.mp ht
    exact h.replaceChars hm hij hj hl
  | replaceOwn i j k n =>
    obtain ⟨⟨⟨hij, hj⟩, hk⟩, ⟨⟩⟩ := Option.ite_none_right_eq_some.mp ht
    exact h.replaceOwn hm hij hj hk hf hl
  | assign cs =>
    cases ht
    exact h.assign hm hl
  | assignOwn k n =>
    obtain ⟨hk, ⟨⟩⟩ := Option.ite_none_right_eq_some.mp ht
    exact h.assignOwn hm hk hl
  | assignN n c =>
    cases ht
    exact h.assignN hm hl
  | resize n c =>
    cases ht
    exact h.resize hm hl
  | setChar i c =>
    obtain ⟨hi, ⟨⟩⟩ := Option.ite_none_right_eq_some.mp ht
    exact h.inPlace (f := fun s => s.setChar i c) fun _ _ hrep => setChar_rep hrep hi c
  | popBack =>
    obtain ⟨hnil, ⟨⟩⟩ := Option.ite_none_left_eq_some.mp ht
    exact h.inPlace fun _ _ hrep => popBack_rep hrep hnil
  | clear =>
    cases ht
    exact h.inPlace fun _ _ hrep => clear_rep hrep
  | reserve n =>
    cases ht
    exact h.reserve hm hf
  | setCapacity n =>
    cases ht
    exact h.setCapacity hm hf.1 hf.2
  | shrinkToFit =>
    cases ht
    exact h.shrinkToFit

/-! ## One operation -/

/-- A new string, where there is a new list. -/
theorem agree_add {v : Option BasicString} {w : Option (List UInt8)} (h : Agree (Holds m) env ls)
    (hv : ∀ l, w = some l → l.length ≤ m → ∃ s, v = some s ∧ Holds m s l)
    (hB : Short m ls') (hs : Ops.add w ls i = some ls') :
    ∃ env', Ops.add v env i = some env' ∧ Agree (Holds m) env' ls' := by
  cases hl : ls i with
  | some l => exact absurd hs (by simp [Ops.add, hl])
  | none =>
    have hs' : (w.map fun w => Function.update ls i (some w)) = some ls' := by
      simpa [Ops.add, hl] using hs
    obtain ⟨l, hw, rfl⟩ := Option.map_eq_some_iff.mp hs'
    obtain ⟨s, hv, hh⟩ := hv l hw (hB i l (Function.update_self ..))
    refine ⟨_, ?_, h.update hh⟩
    simp [Ops.add, h.get_none hl, hv]

theorem agree_edit (h : Agree (Holds m) env ls) {e : Edit} (hm : m < 2 ^ 61)
    (hf : ∀ l, ls i = some l → e.Fits m l) (hB : Short m ls')
    (hs : Ops.update (texts.edit e) ls i = some ls') :
    ∃ env', Ops.update (strings.edit e) env i = some env' ∧ Agree (Holds m) env' ls' := by
  obtain ⟨l, hl, hs⟩ := Option.bind_eq_some_iff.mp hs
  obtain ⟨l', hl', hs⟩ := Option.bind_eq_some_iff.mp hs
  cases hs
  obtain ⟨s, hs, hh⟩ := h.get hl
  obtain ⟨s', hs', hh'⟩ := Edit.apply_holds hh hl' (hf l hl) (hB i l' (Function.update_self ..)) hm
  refine ⟨_, ?_, h.update hh'⟩
  rw [Ops.update, hs, Option.bind_eq_bind, Option.bind_some]
  show ((e.apply s).bind fun v => some (Function.update env i (some v))) = _
  rw [hs']
  rfl

theorem Holds.contents (h : Holds m s l) : s.contents = some l := by
  obtain ⟨b, cap, hrep, -⟩ := h
  exact hrep.contents

theorem holds_rangeInitialize (hl : cs.length ≤ m) (hm : m < 2 ^ 61) :
    ∃ s, rangeInitialize cs = some s ∧ Holds m s cs := by
  obtain ⟨s, b, hs, hrep⟩ := rangeInitialize_rep cs (by omega)
  exact ⟨s, hs, b, _, hrep, by omega, by omega⟩

theorem holds_construct : ∃ s, construct = some s ∧ Holds m s [] := by
  obtain ⟨s, hs, hrep⟩ := construct_rep
  exact ⟨s, hs, 0, 23, hrep, le_rfl, le_max_left ..⟩

/-- **An operation that is possible on the lists is possible on the strings that hold them.** -/
theorem agree_step (hm : m < 2 ^ 61) (h : Agree (Holds m) env ls) (a : Op) (hE : Fits m ls a)
    (hB : Short m ls') (hs : texts.step ls a = some ls') :
    ∃ env', strings.step env a = some env' ∧ Agree (Holds m) env' ls' := by
  cases a with
  | construct i =>
    refine agree_add h (fun l hl _ => ?_) hB hs
    obtain rfl : [] = l := Option.some.inj hl
    exact holds_construct
  | rangeInitialize i cs =>
    refine agree_add h (fun l hl hlen => ?_) hB hs
    obtain rfl : cs = l := Option.some.inj hl
    exact holds_rangeInitialize hlen hm
  | sizeInitialize i n c =>
    refine agree_add h (fun l hl hlen => ?_) hB hs
    obtain rfl : List.replicate n c = l := Option.some.inj hl
    obtain ⟨s, hs, hh⟩ := holds_rangeInitialize hlen hm
    exact ⟨s, (sizeInitialize_eq n c).trans hs, hh⟩
  | copy i j =>
    obtain ⟨cs, hcs, hs⟩ := Option.bind_eq_some_iff.mp hs
    obtain ⟨x, hx, hhx⟩ := h.get hcs
    obtain ⟨env', henv, hagree⟩ := agree_add (v := rangeInitialize cs) h (fun l hl hlen => by
      obtain rfl : cs = l := Option.some.inj hl
      exact holds_rangeInitialize hlen hm) hB hs
    refine ⟨env', ?_, hagree⟩
    rw [Ops.step, hx, Option.bind_some]
    show (x.contents.bind fun cs => Ops.add (rangeInitialize cs) env i) = some env'
    rw [hhx.contents]
    exact henv
  | move i j =>
    cases hl : ls i with
    | some l => exact absurd hs (by simp [Ops.step, hl])
    | none =>
      have hs' : ((ls j).bind fun x => some (Function.update (Function.update ls j (some [])) i
          (some x))) = some ls' := by
        simpa [Ops.step, hl, texts] using hs
      obtain ⟨cs, hcs, hls'⟩ := Option.bind_eq_some_iff.mp hs'
      cases hls'
      obtain ⟨x, hx, hhx⟩ := h.get hcs
      obtain ⟨t, ht, hrept⟩ := constructMove_rep x
      refine ⟨_, ?_, (h.update ⟨0, 23, hrept, le_rfl, le_max_left ..⟩).update hhx⟩
      simp [Ops.step, h.get_none hl, hx, strings, ht]
  | edit i e => exact agree_edit h hm hE hB hs
  | use i j u =>
    have hij : i ≠ j := fun hij => absurd hs (by simp [Ops.step, hij])
    rw [Ops.step, if_neg hij] at hs
    obtain ⟨cs, hcs, hs⟩ := Option.bind_eq_some_iff.mp hs
    obtain ⟨x, hx, hhx⟩ := h.get hcs
    have hfits : ∀ l, (u.edit cs).Fits m l := fun l => by cases u <;> trivial
    obtain ⟨env', henv, hagree⟩ := agree_edit h hm (fun l _ => hfits l) hB hs
    refine ⟨env', ?_, hagree⟩
    rw [Ops.step, if_neg hij, hx, Option.bind_some]
    show (x.contents.bind fun cs => Ops.update (strings.edit (u.edit cs)) env i) = some env'
    rw [hhx.contents]
    exact henv
  | swap i j =>
    obtain ⟨l₁, hl₁, hs⟩ := Option.bind_eq_some_iff.mp hs
    obtain ⟨l₂, hl₂, rfl⟩ := Option.map_eq_some_iff.mp hs
    obtain ⟨x, hx, hhx⟩ := h.get hl₁
    obtain ⟨y, hy, hhy⟩ := h.get hl₂
    refine ⟨_, ?_, (h.update hhy).update hhx⟩
    rw [Ops.step, hx, Option.bind_some, hy, Option.map_some]
  | destroy i =>
    obtain ⟨l, hl, hs⟩ := Option.bind_eq_some_iff.mp hs
    obtain rfl : Function.update ls i none = ls' := Option.some.inj hs
    obtain ⟨s, hs, b, cap, hrep, -⟩ := h.get hl
    obtain ⟨s', hs', -⟩ := hrep.destruct
    refine ⟨_, ?_, h.erase⟩
    simp [Ops.step, hs, strings, hs']

/-! ## Programs -/

/-- What can be seen of a string that holds `l`, of at most `m` characters, and what is left when
it is destroyed. -/
structure Reads (m : ℕ) (s : BasicString) (l : List UInt8) : Prop where
  contents : s.contents = some l
  cStr : (s.beginPtr.bind fun p => s.readChars p (l.length + 1)) = some (l ++ [0])
  size : s.getSize = some l.length
  capacity : ∃ cap, s.capacity = some cap ∧ l.length ≤ cap ∧ cap ≤ max 23 (2 * m)
  destruct : ∃ s', s.destruct = some s' ∧ ∀ a, s'.size a = none

theorem Holds.reads (h : Holds m s l) : Reads m s l := by
  obtain ⟨b, cap, hrep, -, hcap⟩ := h
  have hle := hrep.lay.n_le
  refine ⟨hrep.contents, ?_, hrep.lay.getSize, ⟨cap, hrep.lay.capacity, hle, hcap⟩, hrep.destruct⟩
  have htext : s.Row ⟨b, 0⟩ (([] ++ ((l ++ [0]) ++ [])).map .byte) := by
    simpa only [List.append_nil, List.nil_append] using row_text.mp hrep.row
  have hreads := hrep.lay.own_reads [] (l ++ [0]) [] htext (by
    rw [List.length_nil, List.length_append, List.length_singleton]
    omega)
  rw [List.length_append, List.length_singleton] at hreads
  rw [hrep.lay.beginPtr, Option.bind_some]
  exact readChars_of_reads hreads

/-- **A program that runs on lists runs on strings**, which hold the lists, read as they do, take
no more than twice the room the longest list needs, and give all storage back. -/
theorem strings_agree (hm : m < 2 ^ 61) {as : List Op}
    (hE : texts.system.Meets (Fits m) (fun _ => none) as)
    (hshort : texts.system.Always (Short m) (fun _ => none) as)
    (hs : texts.system.exec (fun _ => none) as = some ls) :
    ∃ env, strings.system.exec (fun _ => none) as = some env ∧
      (∀ i, env i = none ↔ ls i = none) ∧
      ∀ i s l, env i = some s → ls i = some l → Reads m s l := by
  have hwithin : texts.system.Meets (fun ls a => ∀ ls', texts.step ls a = some ls' → Short m ls')
      (fun _ => none) as := by
    refine System.Meets.of_always (fun ls a ls' hs _ hB ls'' hs' => ?_) hshort
    obtain rfl : ls' = ls'' := Option.some.inj (hs.symm.trans hs')
    exact hB
  have hstep : ∀ env ls a ls', Agree (Holds m) env ls →
      Fits m ls (id a) ∧ (∀ ls', texts.step ls (id a) = some ls' → Short m ls') →
      texts.system.step ls (id a) = some ls' →
      ∃ env', strings.system.step env a = some env' ∧ Agree (Holds m) env' ls' :=
    fun _ _ a _ h hE hs => agree_step hm h a hE.1 (hE.2 _ hs) hs
  have hboth := hE.and hwithin
  rw [← List.map_id as] at hboth hs
  obtain ⟨env, henv, hagree⟩ := System.exec_follows hstep (fun _ => .none) hboth hs
  refine ⟨env, henv, fun i => hagree.none_iff, fun i s l hs hl => ?_⟩
  obtain ⟨s', hs', hh⟩ := hagree.get hl
  obtain rfl : s' = s := Option.some.inj (hs'.symm.trans hs)
  exact hh.reads

/-- A program that copies a string into others, doubles it and hands it over. -/
def doubling : List Op :=
  [.rangeInitialize 0 (List.replicate 20 97), .copy 1 0, .use 0 1 .append,
    .edit 0 (.insertOwn 1 0 4), .edit 1 .popBack, .move 2 0, .swap 0 1, .destroy 1]

theorem doubling_fits : texts.system.Meets (Fits 44) (fun _ => none) doubling := by
  refine .cons rfl trivial (.cons rfl trivial (.cons rfl trivial (.cons rfl (fun l hl => ?_)
    (.cons rfl (fun l hl => ?_) (.cons rfl trivial (.cons rfl trivial
    (.cons rfl trivial .nil)))))))
  · cases hl
    exact .inr (by decide)
  · cases hl
    exact trivial

theorem doubling_short : texts.system.Always (Short 44) (fun _ => none) doubling := by
  have h₀ : Short 44 (fun _ => none : ℕ → Option (List UInt8)) := fun _ _ hl => nomatch hl
  have h₁ := Each.update (i := 0) (w := List.replicate 20 97) h₀ (by decide)
  have h₂ := Each.update (i := 1) (w := List.replicate 20 97) h₁ (by decide)
  have h₃ := Each.update (i := 0) (w := List.replicate 40 97) h₂ (by decide)
  have h₄ := Each.update (i := 0) (w := List.replicate 44 97) h₃ (by decide)
  have h₅ := Each.update (i := 1) (w := List.replicate 19 97) h₄ (by decide)
  have h₆ := Each.update (i := 0) (w := []) h₅ (by decide)
  have h₇ := Each.update (i := 2) (w := List.replicate 44 97) h₆ (by decide)
  have h₈ := Each.update (i := 0) (w := List.replicate 19 97) h₇ (by decide)
  have h₉ := Each.update (i := 1) (w := []) h₈ (by decide)
  exact .cons rfl h₀ (.cons rfl h₁ (.cons rfl h₂ (.cons rfl h₃ (.cons rfl h₄ (.cons rfl h₅
    (.cons rfl h₇ (.cons rfl h₉ (h₉.erase (i := 1)))))))))

theorem doubling_agrees :
    ∃ env, strings.system.exec (fun _ => none) doubling = some env ∧ env 1 = none ∧
      ∃ s, env 2 = some s ∧ Reads 44 s (List.replicate 44 97) := by
  obtain ⟨env, henv, hnone, hreads⟩ := strings_agree (by decide) doubling_fits doubling_short rfl
  refine ⟨env, henv, (hnone 1).mpr rfl, ?_⟩
  cases hs : env 2 with
  | none => exact absurd ((hnone 2).mp hs) (Option.some_ne_none _)
  | some s => exact ⟨s, rfl, hreads 2 s _ hs rfl⟩

end Dpp.BasicString
