import Dpp.Text.Convert

/-!
# `npf_snprintf`

* `vpprintf`: the loop, which puts every character through a callback and counts it.
* `output`: the characters that are put. **`vpprintf_eq`**: the loop puts these.
* `vsnprintf`: into a buffer, where characters past its size are dropped, or nowhere.
* **`vsnprintf_null`**, **`vsnprintf_buffer`**: what it returns and what the buffer holds.
-/

namespace Dpp.Npf

variable {m : DataModel} {σ : Type}

/-- `npf_cnt_putc_ctx_t`, without the callback. -/
structure PutcCnt (σ : Type) where
  ctx : σ
  n : ℕ

/-- `npf_putc_cnt`. -/
def PutcCnt.put (pc : Char → σ → σ) (cnt : PutcCnt σ) (c : Char) : PutcCnt σ where
  ctx := pc c cnt.ctx
  n := cnt.n + 1

/-- `(*cur != '%') ? 0 : npf_parse_format_spec(cur, &fs)`. -/
def specAt (cur : List Char) : Option (FormatSpec × List Char) :=
  if cur.head? = some '%' then parseFormatSpec cur else none

theorem specAt_length {cur rest : List Char} {fs : FormatSpec}
    (h : specAt cur = some (fs, rest)) : rest.length < cur.length := by
  unfold specAt at h
  split_ifs at h
  exact parseFormatSpec_length h

/-- The loop of `npf_vpprintf`. -/
def vpprintf (m : DataModel) (pc : Char → σ → σ) (cnt : PutcCnt σ) (format : List Char)
    (args : List Vararg) : Option (PutcCnt σ) :=
  match format with
  | [] => some cnt
  | c :: cur =>
    match _h : specAt (c :: cur) with
    | none => vpprintf m pc (cnt.put pc c) cur args
    | some (fs, rest) =>
      match specText m fs args with
      | none => none
      | some (text, args) => vpprintf m pc (text.foldl (PutcCnt.put pc) cnt) rest args
termination_by format.length
decreasing_by
  · exact Nat.lt_succ_self _
  · exact specAt_length _h

/-- The characters that are put. -/
def output (m : DataModel) (format : List Char) (args : List Vararg) : Option (List Char) :=
  match format with
  | [] => some []
  | c :: cur =>
    match _h : specAt (c :: cur) with
    | none => (output m cur args).map (c :: ·)
    | some (fs, rest) =>
      (specText m fs args).bind fun r => (output m rest r.2).map (r.1 ++ ·)
termination_by format.length
decreasing_by
  · exact Nat.lt_succ_self _
  · exact specAt_length _h

/-- `npf_bufputc_ctx_t`. -/
structure BufputcCtx where
  dst : List Char
  len : ℕ
  cur : ℕ

def bufputc (c : Char) (ctx : BufputcCtx) : BufputcCtx :=
  if ctx.cur < ctx.len then { ctx with dst := ctx.dst.set ctx.cur c, cur := ctx.cur + 1 } else ctx

def bufputcNop (_ : Char) (ctx : BufputcCtx) : BufputcCtx := ctx

/-- `npf_vsnprintf`: the number of characters and the buffer. -/
def vsnprintf (m : DataModel) (buffer : Option (List Char)) (bufsz : ℕ) (format : List Char)
    (args : List Vararg) : Option (ℕ × List Char) :=
  let ctx : BufputcCtx := ⟨buffer.getD [], bufsz, 0⟩
  let pc := if buffer.isSome then bufputc else bufputcNop
  (vpprintf m pc ⟨ctx, 0⟩ format args).map fun cnt => (cnt.n, (pc '\x00' cnt.ctx).dst)

/-! ## The characters that are put -/

section Output

variable {pc : Char → σ → σ} {c : Char} {cur rest text : List Char} {args args' : List Vararg}
  {fs : FormatSpec}

theorem vpprintf_of_none (h : specAt (c :: cur) = none) (cnt : PutcCnt σ) :
    vpprintf m pc cnt (c :: cur) args = vpprintf m pc (cnt.put pc c) cur args := by
  rw [vpprintf]
  split
  · rfl
  · rename_i h'
    exact absurd (h.symm.trans h') (Option.some_ne_none _).symm

theorem vpprintf_of_some (h : specAt (c :: cur) = some (fs, rest)) (cnt : PutcCnt σ) :
    vpprintf m pc cnt (c :: cur) args = (specText m fs args).bind fun r =>
      vpprintf m pc (r.1.foldl (PutcCnt.put pc) cnt) rest r.2 := by
  rw [vpprintf]
  split
  · rename_i h'
    exact absurd (h.symm.trans h') (Option.some_ne_none _)
  · rename_i h'
    obtain ⟨rfl, rfl⟩ := Prod.mk.inj (Option.some.inj (h.symm.trans h'))
    cases specText m fs args <;> rfl

theorem output_of_none (h : specAt (c :: cur) = none) :
    output m (c :: cur) args = (output m cur args).map (c :: ·) := by
  rw [output]
  split
  · rfl
  · rename_i h'
    exact absurd (h.symm.trans h') (Option.some_ne_none _).symm

theorem output_of_some (h : specAt (c :: cur) = some (fs, rest)) :
    output m (c :: cur) args =
      (specText m fs args).bind fun r => (output m rest r.2).map (r.1 ++ ·) := by
  rw [output]
  split
  · rename_i h'
    exact absurd (h.symm.trans h') (Option.some_ne_none _)
  · rename_i h'
    obtain ⟨rfl, rfl⟩ := Prod.mk.inj (Option.some.inj (h.symm.trans h'))
    rfl

/-- **The loop puts the characters of the output**, one after the other. -/
theorem vpprintf_eq (pc : Char → σ → σ) (cnt : PutcCnt σ) (format : List Char)
    (args : List Vararg) : vpprintf m pc cnt format args =
      (output m format args).map (List.foldl (PutcCnt.put pc) cnt) := by
  induction hn : format.length using Nat.strong_induction_on generalizing format args cnt with
  | _ n ih =>
    subst hn
    cases format with
    | nil =>
      rw [vpprintf, output]
      rfl
    | cons c cur =>
      cases h : specAt (c :: cur) with
      | none =>
        rw [vpprintf_of_none h, output_of_none h, ih _ (Nat.lt_succ_self _) _ _ _ rfl]
        rw [Option.map_map]
        rfl
      | some r =>
        obtain ⟨fs, rest⟩ := r
        rw [vpprintf_of_some h, output_of_some h, Option.map_bind]
        congr 1
        funext r
        simp only [Function.comp_apply]
        rw [ih _ (specAt_length h) _ _ _ rfl, Option.map_map]
        congr 1
        funext out
        exact List.foldl_append.symm

/-- The count and the context after the characters `cs`. -/
theorem foldl_put (pc : Char → σ → σ) (cnt : PutcCnt σ) (cs : List Char) :
    cs.foldl (PutcCnt.put pc) cnt = ⟨cs.foldl (fun s c => pc c s) cnt.ctx, cnt.n + cs.length⟩ := by
  induction cs generalizing cnt with
  | nil => rfl
  | cons c cs ih =>
    rw [List.foldl_cons, ih]
    simp only [PutcCnt.put, List.foldl_cons, List.length_cons]
    congr 1
    omega

end Output

/-! ## Buffers -/

theorem bufputc_of_lt {c : Char} {ctx : BufputcCtx} (h : ctx.cur < ctx.len) :
    bufputc c ctx = { ctx with dst := ctx.dst.set ctx.cur c, cur := ctx.cur + 1 } :=
  if_pos h

/-- What fits is stored, the rest is dropped. -/
theorem foldl_bufputc (cs : List Char) (ctx : BufputcCtx) (hc : ctx.cur ≤ ctx.len)
    (hl : ctx.len ≤ ctx.dst.length) : (cs.foldl (fun s c => bufputc c s) ctx).dst =
      ctx.dst.take ctx.cur ++ cs.take (ctx.len - ctx.cur) ++
        ctx.dst.drop (ctx.cur + min (ctx.len - ctx.cur) cs.length) := by
  induction cs generalizing ctx with
  | nil => simp
  | cons c cs ih =>
    rw [List.foldl_cons]
    by_cases h : ctx.cur < ctx.len
    · obtain ⟨k, hk⟩ : ∃ k, ctx.len - ctx.cur = k + 1 := ⟨ctx.len - ctx.cur - 1, by omega⟩
      have hk' : ctx.len - (ctx.cur + 1) = k := by omega
      have hset : (ctx.dst.set ctx.cur c).take (ctx.cur + 1) = ctx.dst.take ctx.cur ++ [c] := by
        rw [List.take_add_one, List.take_set_of_le (le_refl _), List.getElem?_set_self (by omega)]
        rfl
      have hl' : ctx.len ≤ (ctx.dst.set ctx.cur c).length := by rwa [List.length_set]
      rw [bufputc_of_lt h, ih ⟨ctx.dst.set ctx.cur c, ctx.len, ctx.cur + 1⟩ h hl']
      simp only
      have hmin : ctx.cur + 1 + min k cs.length = ctx.cur + min (k + 1) (cs.length + 1) := by omega
      rw [hk, hk', hset, List.drop_set_of_lt (by omega), List.take_succ_cons, List.length_cons,
        hmin]
      simp
    · have hput : bufputc c ctx = ctx := if_neg h
      have hk : ctx.len - ctx.cur = 0 := by omega
      rw [hput, ih _ hc hl, hk, Nat.zero_min, Nat.zero_min]
      rfl

/-- **The measuring pass** counts. -/
theorem vsnprintf_null (m : DataModel) (bufsz : ℕ) (format : List Char) (args : List Vararg) :
    vsnprintf m none bufsz format args =
      (output m format args).map fun out => (out.length, []) := by
  unfold vsnprintf
  simp only
  rw [vpprintf_eq, Option.map_map]
  congr 1
  funext out
  simp [foldl_put, bufputcNop]

/-- **The writing pass** stores what fits of the text and its NUL. -/
theorem vsnprintf_buffer (m : DataModel) {buffer : List Char} {bufsz : ℕ}
    (hl : bufsz ≤ buffer.length) (format : List Char) (args : List Vararg) :
    vsnprintf m (some buffer) bufsz format args = (output m format args).map fun out =>
      (out.length, (out ++ ['\x00']).take bufsz ++ buffer.drop (min bufsz (out.length + 1))) := by
  unfold vsnprintf
  simp only
  rw [vpprintf_eq, Option.map_map]
  congr 1
  funext out
  have hput := foldl_bufputc (out ++ ['\x00']) ⟨buffer, bufsz, 0⟩ (Nat.zero_le _) hl
  rw [List.foldl_append] at hput
  simp only [Function.comp_apply, foldl_put, Nat.zero_add]
  congr 1
  simpa using hput

end Dpp.Npf
