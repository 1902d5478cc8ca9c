import UcVfs.Vfs.Normalize

/-!
# What normalising a path gives

The kept components are those that `resolve` keeps, each in the form that is stored. A component
that begins with a dot is stored without it.
-/

namespace UcVfs

open Framework

section Kept

variable {buflen : ℕ} {cs kept r : List (List Char)}

theorem stored_length (c : List Char) : (stored c).length ≤ c.length := by
  rw [stored]
  split
  · rw [List.length_tail]
    exact Nat.sub_le _ _
  · exact Nat.le_refl _

theorem stored_plain {c : List Char} (h : c.head? ≠ some '.') : stored c = c := if_neg h

theorem stored_isComponent {c : List Char} (hc : IsComponent '/' c) (hdot : isDot c = false) :
    IsComponent '/' (stored c) := by
  rw [stored]
  split
  · rename_i hhead
    refine ⟨?_,fun hm => hc.2 (List.mem_of_mem_tail hm)⟩
    obtain ⟨c',rfl⟩ := List.head?_eq_some_iff.mp hhead
    rintro rfl
    exact absurd hdot (by decide)
  · exact hc

theorem keepComponents_ok (h : keepComponents buflen cs kept = .ok r) :
    resolve isDot isDotDot stored cs kept = some r := by
  induction cs generalizing kept with
  | nil => exact congrArg some (Except.ok.inj h)
  | cons c cs ih =>
    rw [keepComponents,keepOne] at h
    rw [resolve]
    by_cases hdot : isDot c = true
    · rw [if_pos hdot] at h ⊢
      exact ih h
    · rw [if_neg hdot] at h ⊢
      by_cases hup : isDotDot c = true
      · rw [if_pos hup] at h ⊢
        cases kept with
        | nil => cases h
        | cons d kept => exact ih h
      · rw [if_neg hup] at h ⊢
        by_cases hfull : buflen ≤ (render '/' (kept ++ [stored c])).length
        · rw [if_pos hfull] at h
          cases h
        · rw [if_neg hfull] at h
          exact ih h

theorem keepComponents_error {res : Int} (h : keepComponents buflen cs kept = .error res) :
    res < 0 := by
  induction cs generalizing kept with
  | nil => cases h
  | cons c cs ih =>
    rw [keepComponents] at h
    cases hone : keepOne buflen kept c with
    | ok kept' =>
      rw [hone] at h
      exact ih h
    | error res' =>
      rw [hone] at h
      obtain rfl := Except.error.inj h
      rw [keepOne] at hone
      split at hone
      · cases hone
      · split at hone
        · split at hone
          · obtain rfl := Except.error.inj hone
            decide
          · cases hone
        · split at hone
          · obtain rfl := Except.error.inj hone
            decide
          · cases hone

/-- With room for everything the buffer does not matter. -/
theorem keepComponents_room
    (hroom : (render '/' kept).length + (render '/' cs).length < buflen) :
    keepComponents buflen cs kept =
      match resolve isDot isDotDot stored cs kept with
      | none => .error (-EINVAL)
      | some r => .ok r := by
  induction cs generalizing kept with
  | nil => rfl
  | cons c cs ih =>
    rw [render_cons,List.length_append,List.length_cons] at hroom
    rw [keepComponents,keepOne,resolve]
    by_cases hdot : isDot c = true
    · rw [if_pos hdot,if_pos hdot]
      exact ih (by omega)
    · rw [if_neg hdot,if_neg hdot]
      by_cases hup : isDotDot c = true
      · rw [if_pos hup,if_pos hup]
        cases kept with
        | nil => rfl
        | cons d kept =>
          have hdrop := render_dropLast_length '/' (d :: kept)
          exact ih (by omega)
      · have hlen : (render '/' (kept ++ [stored c])).length ≤
            (render '/' kept).length + (c.length + 1) := by
          have hc := stored_length c
          rw [render_concat,List.length_append,List.length_cons]
          omega
        rw [if_neg hup,if_neg hup,if_neg (by omega)]
        exact ih (by omega)

end Kept

/-- A slash before each component, and one at the end for a trailing slash. -/
def slashText (cs : List (List Char)) (tail : Bool) : List Char :=
  render '/' cs ++ if tail then ['/'] else []

/-- `buf` holds the string. -/
def HoldsString (buf : ℕ → Option Char) (out : List Char) : Prop :=
  Written buf (out ++ [nul]) ∧ nul ∉ out

section Text

variable {buflen n : ℕ} {rest out : List Char} {kept : List (List Char)}

/-- What the loop leaves, when it does not fail. -/
theorem normText_ok (h : normText buflen rest [] = .ok (out,n)) :
    ∃ r,resolve isDot isDotDot stored (components '/' rest) [] = some r ∧
      out = slashText r (trails '/' rest) ∧ n = r.length := by
  rw [normText] at h
  cases hkeep : keepComponents buflen (components '/' rest) [] with
  | error res =>
    rw [hkeep] at h
    cases h
  | ok r =>
    refine ⟨r,keepComponents_ok hkeep,?_⟩
    rw [hkeep] at h
    simp only [] at h
    by_cases htrail : trails '/' rest = true
    · rw [if_pos htrail] at h
      split at h
      · cases h
      · obtain ⟨rfl,rfl⟩ := Prod.mk.inj (Except.ok.inj h)
        rw [slashText,if_pos htrail]
        exact ⟨rfl,rfl⟩
    · rw [if_neg htrail] at h
      obtain ⟨rfl,rfl⟩ := Prod.mk.inj (Except.ok.inj h)
      rw [slashText,if_neg htrail,List.append_nil]
      exact ⟨rfl,rfl⟩

theorem normText_error {res : Int} (h : normText buflen rest kept = .error res) : res < 0 := by
  rw [normText] at h
  cases hkeep : keepComponents buflen (components '/' rest) kept with
  | error res' =>
    rw [hkeep] at h
    obtain rfl := Except.error.inj h
    exact keepComponents_error hkeep
  | ok r =>
    rw [hkeep] at h
    simp only [] at h
    split at h
    · split at h
      · obtain rfl := Except.error.inj h
        decide
      · cases h
    · cases h

/-- With room for the whole path it fails only for a component that goes up from the root. -/
theorem normText_room (h : rest.length + 2 ≤ buflen) :
    normText buflen rest [] =
      match resolve isDot isDotDot stored (components '/' rest) [] with
      | none => .error (-EINVAL)
      | some r => .ok (slashText r (trails '/' rest),r.length) := by
  have hfit : (render '/' (components '/' rest)).length + (trails '/' rest).toNat ≤
      rest.length + 1 := render_components_length rest
  have hroom : (render '/' []).length + (render '/' (components '/' rest)).length < buflen := by
    rw [render_nil,List.length_nil]
    omega
  rw [normText,keepComponents_room hroom]
  cases hr : resolve isDot isDotDot stored (components '/' rest) [] with
  | none => rfl
  | some r =>
    have hlen := resolve_length '/' stored_length hr
    rw [render_nil,List.length_nil] at hlen
    simp only []
    by_cases htrail : trails '/' rest = true
    · rw [htrail,Bool.toNat_true] at hfit
      rw [if_pos htrail,if_neg (by omega),slashText,if_pos htrail]
    · rw [if_neg htrail,slashText,if_neg htrail,List.append_nil]

/-- The components that are kept. -/
theorem kept_parts {path : CStr}
    (h : resolve isDot isDotDot stored (components '/' path.chars) [] = some kept) :
    ∀ d ∈ kept,IsComponent '/' d ∧ nul ∉ d := by
  intro d hd
  rcases mem_resolve h d hd with hnil | ⟨c,hc,hdot,_,rfl⟩
  · exact absurd hnil List.not_mem_nil
  · refine ⟨stored_isComponent (isComponent_of_mem hc) hdot,fun hm => ?_⟩
    have hsub : nul ∈ c := by
      rw [stored] at hm
      split at hm
      · exact List.mem_of_mem_tail hm
      · exact hm
    rcases List.mem_cons.mp (subset_of_mem hc hsub) with hnul | hmem
    · exact absurd hnul (by decide)
    · exact path.noNul hmem

theorem slashText_noNul (h : ∀ d ∈ kept,IsComponent '/' d ∧ nul ∉ d) (tail : Bool) :
    nul ∉ slashText kept tail := by
  intro hm
  rcases List.mem_append.mp hm with hkept | htail
  · obtain ⟨d,hd,hmem⟩ := List.mem_flatMap.mp hkept
    rcases List.mem_cons.mp hmem with hnul | hin
    · exact absurd hnul (by decide)
    · exact (h d hd).2 hin
  · cases tail with
    | false => cases htail
    | true => exact absurd (List.mem_singleton.mp htail) (by decide)

end Text

/-- What a result that is not negative promises. -/
def WellFormed (buflen : ℕ) (out : List Char) (n : Int) : Prop :=
  out.length < buflen ∧ (out = [] ∨ out.head? = some '/') ∧
  out.IsChain (fun a b => a ≠ '/' ∨ b ≠ '/') ∧
  (n = (components '/' out).length ∨ out = ['/'] ∧ n = 1)

theorem slashText_head (kept : List (List Char)) (tail : Bool) :
    slashText kept tail = [] ∨ (slashText kept tail).head? = some '/' := by
  cases kept with
  | nil =>
    cases tail with
    | false => exact Or.inl rfl
    | true => exact Or.inr rfl
  | cons c kept => exact Or.inr rfl

theorem slashText_length_one {kept : List (List Char)} {tail : Bool} : (slashText kept tail).length = 1 ↔
      slashText kept tail = ['/'] := by
  refine ⟨fun hlen => ?_,fun he => by rw [he]; rfl⟩
  obtain ⟨x,hx⟩ := List.length_eq_one_iff.mp hlen
  have hhead := slashText_head kept tail
  rw [hx] at hhead ⊢
  simpa using hhead

theorem normResult_ok (out : List Char) (n : ℕ) : 0 ≤ normResult (.ok (out,n)) := by
  rw [normResult]
  split
  · decide
  · exact Int.natCast_nonneg n

/-- What a call leaves that has not failed. -/
theorem slashText_wellFormed {kept : List (List Char)} {tail : Bool} {buflen : ℕ}
    (h : ∀ d ∈ kept,IsComponent '/' d) (hroom : (slashText kept tail).length < buflen) :
    WellFormed buflen (slashText kept tail)
      (normResult (.ok (slashText kept tail,kept.length))) := by
  rw [normResult]
  refine ⟨hroom,slashText_head kept tail,render_chain h tail,?_⟩
  by_cases hone : (slashText kept tail).length = 1
  · rw [if_pos hone]
    exact Or.inr ⟨slashText_length_one.mp hone,rfl⟩
  · rw [if_neg hone,slashText,components_render h]
    exact Or.inl rfl

/-- The call always comes to an end with every access allowed; it does not run out of room where
the path would fit, and what it leaves is well formed. -/
theorem normalize_safe (path : CStr) (buflen more : ℕ) :
    ∃ res buf,vfsNormalizePath path buflen (path.length + 2 + more) = some (res,buf) ∧
      (path.length + 2 ≤ buflen → res ≠ -ENAMETOOLONG) ∧
      (0 ≤ res → ∃ out,HoldsString buf out ∧ WellFormed buflen out res) := by
  by_cases hpos : 0 < buflen
  · obtain ⟨buf,hrun,hbuf⟩ := vfsNormalizePath_spec path hpos
      (show path.length + 1 < path.length + 2 + more by omega)
    refine ⟨_,buf,hrun,?_,?_⟩
    · intro hroom
      rw [normText_room hroom]
      cases resolve isDot isDotDot stored (components '/' path.chars) [] with
      | none => exact show -EINVAL ≠ -ENAMETOOLONG by decide
      | some r =>
        have hneg : -ENAMETOOLONG < 0 := by decide
        have hnonneg := normResult_ok (slashText r (trails '/' path.chars)) r.length
        exact fun he => absurd hneg (not_lt.mpr (he ▸ hnonneg))
    · intro hres
      cases htext : normText buflen path.chars [] with
      | error res =>
        rw [htext] at hres
        exact absurd (show res < 0 from normText_error htext) (not_lt.mpr hres)
      | ok r =>
        obtain ⟨out,n⟩ := r
        obtain ⟨hwritten,hroom⟩ := hbuf out n htext
        obtain ⟨kept,hkept,rfl,rfl⟩ := normText_ok htext
        have hparts := kept_parts hkept
        exact ⟨_,⟨hwritten,slashText_noNul hparts _⟩,
          slashText_wellFormed (fun d hd => (hparts d hd).1) hroom⟩
  · refine ⟨-ENAMETOOLONG,fun _ => none,?_,?_,?_⟩
    · rw [vfsNormalizePath,if_pos (Nat.le_of_not_lt hpos)]
    · intro hroom
      omega
    · intro hres
      exact absurd hres (by decide)

/-- The components that survive: `.` does not count, and `..` goes away with the last one before
it. -/
def survivors (path : CStr) : Option (List (List Char)) :=
  resolve isDot isDotDot id (components '/' path.chars) []

/-- The lexical normal form of `path` as a result and the contents of `buf`. -/
def LexicalForm (path : CStr) (res : Int) (buf : ℕ → Option Char) : Prop :=
  match survivors path with
  | none => res = -EINVAL
  | some kept =>
    let out := slashText kept (trails '/' path.chars)
    HoldsString buf out ∧ res = if out = ['/'] then 1 else (kept.length : Int)

/-- A string that is left in `buf` has no special component, and it is its own normal form. -/
def Stable (res : Int) (buf : ℕ → Option Char) : Prop :=
  ∀ path : CStr,HoldsString buf path.chars →
    (∀ c ∈ components '/' path.chars,c ≠ ['.'] ∧ c ≠ ['.','.']) ∧
    ∀ buflen more,path.length + 2 ≤ buflen →
      ∃ buf',vfsNormalizePath path buflen (path.length + 2 + more) = some (res,buf') ∧
        HoldsString buf' path.chars

/-- No surviving component begins with a dot. -/
def Dotless (path : CStr) : Prop :=
  ∀ kept,survivors path = some kept → ∀ c ∈ kept,c.head? ≠ some '.'

section Lexical

variable {path : CStr} {kept : List (List Char)} {buf : ℕ → Option Char} {out out' : List Char}

/-- What a call stores of the survivors. -/
theorem resolve_stored (path : CStr) :
    resolve isDot isDotDot stored (components '/' path.chars) [] =
      (survivors path).map (List.map stored) := resolve_push _ []

theorem survivors_parts (h : survivors path = some kept) :
    ∀ c ∈ kept,IsComponent '/' c ∧ isDot c = false ∧ isDotDot c = false := by
  intro c hc
  rcases mem_resolve h c hc with hnil | ⟨d,hd,hdot,hup,rfl⟩
  · exact absurd hnil List.not_mem_nil
  · exact ⟨isComponent_of_mem hd,hdot,hup⟩

theorem HoldsString.unique (h : HoldsString buf out) (h' : HoldsString buf out') : out = out' := by
  have hle : ∀ {out out' : List Char},HoldsString buf out → HoldsString buf out' →
      out'.length ≤ out.length := by
    intro out out' h h'
    by_contra hlt
    have hlt : out.length < out'.length := Nat.lt_of_not_le hlt
    have hend := h.1 out.length (by simp)
    rw [List.getElem_concat_length rfl,h'.1 out.length (by simp; omega),
      List.getElem_append_left hlt] at hend
    exact h'.2 (Option.some.inj hend ▸ List.getElem_mem hlt)
  refine List.ext_getElem (Nat.le_antisymm (hle h' h) (hle h h')) ?_
  intro i hi hi'
  have hget := h.1 i (by simp; omega)
  rw [h'.1 i (by simp; omega),List.getElem_append_left hi',List.getElem_append_left hi] at hget
  exact (Option.some.inj hget).symm

theorem slashText_injective {kept kept' : List (List Char)} {tail : Bool}
    (h : ∀ c ∈ kept,IsComponent '/' c) (h' : ∀ c ∈ kept',IsComponent '/' c)
    (he : slashText kept tail = slashText kept' tail) : kept = kept' := by
  rw [← components_render h tail,← components_render h' tail]
  exact congrArg (components '/') he

theorem map_stored_eq : kept.map stored = kept ↔ ∀ c ∈ kept,c.head? ≠ some '.' := by
  rw [show (kept.map stored = kept) = (kept.map stored = kept.map id) by rw [List.map_id],
    List.map_inj_left]
  refine forall₂_congr fun c _ => ?_
  constructor
  · intro he hhead
    rw [stored,if_pos hhead] at he
    have hlen := congrArg List.length he
    obtain ⟨c',rfl⟩ := List.head?_eq_some_iff.mp hhead
    simp at hlen
  · exact stored_plain

/-- With room for the path, the survivors decide the call, in the form that is stored. -/
theorem normalize_room (path : CStr) {buflen : ℕ} (more : ℕ) (hroom : path.length + 2 ≤ buflen) :
    ∃ buf,match survivors path with
      | none => vfsNormalizePath path buflen (path.length + 2 + more) = some (-EINVAL,buf)
      | some kept =>
        let out := slashText (kept.map stored) (trails '/' path.chars)
        vfsNormalizePath path buflen (path.length + 2 + more) =
          some (normResult (.ok (out,kept.length)),buf) ∧ HoldsString buf out := by
  obtain ⟨buf,hrun,hbuf⟩ := vfsNormalizePath_spec path (show 0 < buflen by omega)
    (show path.length + 1 < path.length + 2 + more by omega)
  have htext := normText_room hroom
  rw [resolve_stored] at htext
  cases hkept : survivors path with
  | none =>
    rw [hkept,Option.map_none] at htext
    rw [htext] at hrun
    exact ⟨buf,hrun⟩
  | some kept =>
    rw [hkept,Option.map_some] at htext
    simp only [List.length_map] at htext
    have hparts := kept_parts (show resolve isDot isDotDot stored (components '/' path.chars) [] =
      some (kept.map stored) by rw [resolve_stored,hkept,Option.map_some])
    rw [htext] at hrun
    exact ⟨buf,hrun,(hbuf _ _ htext).1,slashText_noNul hparts _⟩

/-- Ordinary names that do not begin with a dot are left as they are. -/
theorem survivors_slashText {tail : Bool} (h : path.chars = slashText kept tail)
    (hparts : ∀ c ∈ kept,IsComponent '/' c ∧ isDot c = false ∧ isDotDot c = false) :
    survivors path = some kept ∧ trails '/' path.chars = tail := by
  have hcomp : ∀ c ∈ kept,IsComponent '/' c := fun c hc => (hparts c hc).1
  have hplain : resolve isDot isDotDot id kept [] = some ([] ++ kept.map id) :=
    resolve_plain (fun c hc => (hparts c hc).2) []
  rw [List.nil_append,List.map_id] at hplain
  rw [survivors,h,slashText,components_render hcomp,trails_render hcomp]
  exact ⟨hplain,rfl⟩

theorem normResult_slashText (kept : List (List Char)) (tail : Bool) :
    normResult (.ok (slashText kept tail,kept.length)) =
      if slashText kept tail = ['/'] then 1 else (kept.length : Int) := by
  rw [normResult]
  exact if_congr slashText_length_one rfl rfl

end Lexical

/-- With room for the path, the lexical normal form is what the call computes exactly when no
surviving component begins with a dot. -/
theorem normalize_lexical (path : CStr) (buflen more : ℕ) (hroom : path.length + 2 ≤ buflen) :
    ∃ res buf,vfsNormalizePath path buflen (path.length + 2 + more) = some (res,buf) ∧
      (LexicalForm path res buf ∧ (0 ≤ res → Stable res buf) ↔ Dotless path) := by
  obtain ⟨buf,hcall⟩ := normalize_room path more hroom
  cases hkept : survivors path with
  | none =>
    rw [hkept] at hcall
    refine ⟨-EINVAL,buf,hcall,?_⟩
    have hform : LexicalForm path (-EINVAL) buf := by
      rw [LexicalForm,hkept]
    have hstable : 0 ≤ -EINVAL → Stable (-EINVAL) buf := fun hle => absurd hle (by decide)
    have hdotless : Dotless path := by
      intro kept he
      rw [hkept] at he
      cases he
    exact iff_of_true ⟨hform,hstable⟩ hdotless
  | some kept =>
    rw [hkept] at hcall
    obtain ⟨hrun,hholds⟩ := hcall
    refine ⟨_,buf,hrun,?_⟩
    have hparts := survivors_parts hkept
    have hcomp : ∀ c ∈ kept,IsComponent '/' c := fun c hc => (hparts c hc).1
    constructor
    · rintro ⟨hform,_⟩ kept' hkept'
      rw [LexicalForm,hkept] at hform
      obtain rfl : kept = kept' := by
        rw [hkept] at hkept'
        exact Option.some.inj hkept'
      have hstored : ∀ c ∈ kept.map stored,IsComponent '/' c := by
        intro c hc
        obtain ⟨d,hd,rfl⟩ := List.mem_map.mp hc
        exact stored_isComponent (hparts d hd).1 (hparts d hd).2.1
      exact map_stored_eq.mp (slashText_injective hstored hcomp (hholds.unique hform.1))
    · intro hdotless
      have hsame := map_stored_eq.mpr (hdotless kept hkept)
      rw [hsame] at hholds ⊢
      refine ⟨?_,fun _ path' hpath' => ?_⟩
      · rw [LexicalForm,hkept]
        exact ⟨hholds,normResult_slashText kept _⟩
      · obtain ⟨hkept',htrails⟩ := survivors_slashText (hpath'.unique hholds) hparts
        constructor
        · intro c hc
          rw [hpath'.unique hholds,slashText,components_render hcomp] at hc
          have hplain := (hparts c hc).2
          exact ⟨by simpa [isDot] using hplain.1,by simpa [isDotDot] using hplain.2⟩
        · intro buflen' more' hroom'
          obtain ⟨buf',hcall'⟩ := normalize_room path' more' hroom'
          rw [hkept'] at hcall'
          simp only [hsame,htrails] at hcall'
          exact ⟨buf',hcall'.1,(hpath'.unique hholds).symm ▸ hcall'.2⟩

def upDir : CStr := ⟨['/','a','/','.','.','/','b','/'],by decide⟩

theorem normalize_lexical_upDir :
    ∃ res buf,vfsNormalizePath upDir 10 (upDir.length + 2 + 0) = some (res,buf) ∧
      LexicalForm upDir res buf ∧ Stable 1 buf := by
  obtain ⟨res,buf,hrun,hiff⟩ := normalize_lexical upDir 10 0 (by decide)
  have hdotless : Dotless upDir := by
    intro kept hkept
    obtain rfl : [['b']] = kept := Option.some.inj hkept
    decide
  obtain ⟨hform,hstable⟩ := hiff.mpr hdotless
  have hres : res = 1 := hform.2
  exact ⟨res,buf,hrun,hform,hres ▸ hstable (by rw [hres]; decide)⟩

def dotConf : CStr := ⟨['/','.','c','o','n','f'],by decide⟩

def threeDots : CStr := ⟨['/','.','.','.'],by decide⟩

/-- A configuration file loses its dot, and three dots become the parent directory. -/
theorem leading_dot_lost :
    (¬∃ res buf,vfsNormalizePath dotConf 8 8 = some (res,buf) ∧ LexicalForm dotConf res buf) ∧
    (vfsNormalizePath dotConf 8 8).map (fun r => (r.1,(List.range 6).map r.2)) =
      some (1,['/','c','o','n','f',nul].map some) ∧
    (vfsNormalizePath threeDots 6 6).map (fun r => (r.1,(List.range 4).map r.2)) =
      some (1,['/','.','.',nul].map some) := by
  refine ⟨?_,by decide,by decide⟩
  rintro ⟨res,buf,hrun,hform⟩
  have hsecond : (vfsNormalizePath dotConf 8 8).map (fun r => r.2 1) = some (some 'c') := by decide
  rw [hrun] at hsecond
  have hdot : buf 1 = some '.' := hform.1.1 1 (by decide)
  exact absurd (hdot.symm.trans (Option.some.inj hsecond)) (by decide)

end UcVfs
