import UcVfs.Fatfs.Api
import UcVfs.Vfs.Types

/-!
# The root directory of a FAT volume

`create_name`, `f_readdir` and what it calls in `ff.c`, without long file names. The table of
the directory is the list of its 32-byte entries; sectors and clusters are not modelled.
-/

namespace UcVfs

open Framework

/-- Deleted directory entry mark, and the replacement of the character that collides with it. -/
def DDEM : Char := Char.ofNat 0xE5
def RDDEM : Char := Char.ofNat 0x05

def AM_VOL : Nat := 0x08
def AM_LFN : Nat := 0x0F
def AM_MASK : Nat := 0x3F

/-! Names. -/

/-- The two-byte characters of code page 932. -/
def dbc1st (c : Char) : Bool :=
  0x81 ≤ c.toNat && c.toNat ≤ 0x9F || 0xE0 ≤ c.toNat && c.toNat ≤ 0xFC

def dbc2nd (c : Char) : Bool :=
  0x40 ≤ c.toNat && c.toNat ≤ 0x7E || 0x80 ≤ c.toNat && c.toNat ≤ 0xFC

def toUpperSfn (c : Char) : Char := if 'a' ≤ c ∧ c ≤ 'z' then Char.ofNat (c.toNat - 0x20) else c

/-- `"*+,:;<=>[]|\"\?\x7F"`. -/
def illegalSfn : List Char :=
  ['*','+',',',':',';','<','=','>','[',']','|','"','?',Char.ofNat 0x7F]

/-- The loop of `create_name`: `i` and `ni` are the next and the last place of the field being
filled. Returns `i` and the field. -/
def createNameFrom : List Char → ℕ → ℕ → List Char → Option (ℕ × List Char)
  | [],i,_,sfn => some (i,sfn)
  | c :: p,i,ni,sfn =>
    if c ≤ ' ' then some (i,sfn)
    else if c = '/' ∨ c = '\\' then some (i,sfn)
    else if c = '.' ∨ i ≥ ni then
      if ni = 11 ∨ c ≠ '.' then none else createNameFrom p 8 11 sfn
    else if dbc1st c then
      match p with
      | [] => none
      | d :: p =>
        if ¬dbc2nd d ∨ i ≥ ni - 1 then none
        else createNameFrom p (i + 2) ni ((sfn.set i c).set (i + 1) d)
    else if c ∈ illegalSfn then none
    else createNameFrom p (i + 1) ni (sfn.set i (toUpperSfn c))

/-- `create_name`, for the name up to a separator; `none` is `FR_INVALID_NAME`. -/
def createName (path : List Char) : Option (List Char) :=
  match createNameFrom path 0 8 (List.replicate 11 ' ') with
  | none => none
  | some (i,sfn) =>
    if i = 0 then none
    else if sfn.headD nul = DDEM then some (sfn.set 0 RDDEM)
    else some sfn

/-- Above the space. -/
def Graphic (c : Char) : Prop := ' '.toNat < c.toNat

/-- A name in 8.3 format. The body may be empty. -/
structure ShortName where
  body : List Char
  ext : List Char
  body_le : body.length ≤ 8
  ext_le : ext.length ≤ 3
  body_chars : ∀ c ∈ body,Graphic c
  ext_chars : ∀ c ∈ ext,Graphic c

namespace ShortName

def pad (n : ℕ) (cs : List Char) : List Char := cs ++ List.replicate (n - cs.length) ' '

def padded (body ext : List Char) : List Char := pad 8 body ++ pad 3 ext

/-- What `DIR_Name` holds. -/
def field (n : ShortName) : List Char :=
  let sfn := padded n.body n.ext
  if sfn.headD nul = DDEM then sfn.set 0 RDDEM else sfn

def text (n : ShortName) : List Char :=
  n.body ++ if n.ext = [] then [] else '.' :: n.ext

/-- The name of eleven spaces. -/
def Blank (n : ShortName) : Prop := n.body = [] ∧ n.ext = []

end ShortName

/-- An entry of a directory table. -/
structure FatSlot where
  name : List Char
  attr : Nat
  fsize : Nat
  fdate : Nat
  ftime : Nat
  deriving DecidableEq

namespace FatSlot

def first (e : FatSlot) : Char := e.name.headD nul

/-- Neither deleted nor a dot entry, a part of a long file name or a volume label. -/
def Valid (e : FatSlot) : Prop :=
  e.first ≠ DDEM ∧ e.first ≠ '.' ∧ e.attr &&& AM_MASK ≠ AM_LFN ∧
    e.attr &&& AM_MASK &&& (0xFF ^^^ AM_ARC) ≠ AM_VOL

instance (e : FatSlot) : Decidable e.Valid := inferInstanceAs (Decidable (_ ∧ _))

end FatSlot

/-! `DIR`. The read pointer is a place in the table, until the end was reached. -/

structure DirPtr where
  dptr : ℕ
  sectZero : Bool
  deriving DecidableEq

def dirNext (table : List FatSlot) (dp : DirPtr) : FResult × DirPtr :=
  if dp.sectZero then (.noFile,dp)
  else if dp.dptr + 1 < table.length then (.ok,⟨dp.dptr + 1,false⟩)
  else (.noFile,⟨dp.dptr,true⟩)

/-- The loop of `dir_read`, over the entries from `dptr` on. -/
def dirReadFrom : List FatSlot → ℕ → Option ℕ
  | [],_ => none
  | e :: rest,dptr =>
    if e.first = nul then none
    else if e.Valid then some dptr
    else dirReadFrom rest (dptr + 1)

def dirRead (table : List FatSlot) (dp : DirPtr) : FResult × DirPtr :=
  if dp.sectZero then (.noFile,dp)
  else
    match dirReadFrom (table.drop dp.dptr) dp.dptr with
    | some dptr => (.ok,⟨dptr,false⟩)
    | none => (.noFile,⟨dp.dptr,true⟩)

/-- The loop of `get_fileinfo`, from the character `si` on. -/
def sfnChars : ℕ → List Char → List Char
  | _,[] => []
  | si,c :: rest =>
    if c = ' ' then sfnChars (si + 1) rest
    else
      let c := if c = RDDEM then DDEM else c
      (if si = 8 then ['.',c] else [c]) ++ sfnChars (si + 1) rest

/-- At the end of the table only `fname[0]` is written. -/
def getFileinfo (table : List FatSlot) (dp : DirPtr) (fno : FilInfo) : FilInfo :=
  let fno := { fno with fname := nul :: fno.fname.drop 1 }
  match dp.sectZero,table[dp.dptr]? with
  | false,some e => ⟨e.fsize,e.fdate,e.ftime,e.attr &&& AM_MASK,sfnChars 0 e.name ++ [nul]⟩
  | _,_ => fno

def fReaddir (table : List FatSlot) (fno : FilInfo) (dp : DirPtr) :
    (FResult × FilInfo) × DirPtr :=
  let (res,dp) := dirRead table dp
  let res := if res = .noFile then .ok else res
  if res = .ok then
    let fno := getFileinfo table dp fno
    let (res,dp) := dirNext table dp
    ((if res = .noFile then .ok else res,fno),dp)
  else
    ((res,fno),dp)
/-! Names survive being stored. -/

theorem Graphic.ne {c d : Char} (hc : Graphic c) (hd : ¬Graphic d) : c ≠ d := by
  intro he
  exact hd (he ▸ hc)

theorem not_graphic_space : ¬Graphic ' ' := by simp [Graphic]

theorem not_graphic_rddem : ¬Graphic RDDEM := by simp [Graphic,RDDEM]

theorem not_graphic_nul : ¬Graphic nul := by simp [Graphic,nul]

namespace ShortName

theorem length_pad {n : ℕ} {cs : List Char} (h : cs.length ≤ n) : (pad n cs).length = n := by
  rw [pad,List.length_append,List.length_replicate]
  omega

theorem pad_set {n : ℕ} {cs : List Char} (h : cs.length < n) (c : Char) :
    (pad n cs).set cs.length c = pad n (cs ++ [c]) := by
  have hsucc : n - cs.length = (n - (cs ++ [c]).length) + 1 := by
    rw [List.length_append,List.length_singleton]
    omega
  rw [pad,hsucc,List.set_append_right _ _ (le_refl _),Nat.sub_self,List.replicate_succ,
    List.set_cons_zero,pad,List.append_assoc,List.singleton_append]

end ShortName

open ShortName

theorem sfnChars_append (si : ℕ) (xs ys : List Char) :
    sfnChars si (xs ++ ys) = sfnChars si xs ++ sfnChars (si + xs.length) ys := by
  induction xs generalizing si with
  | nil => rfl
  | cons x xs ih =>
    have hnext : si + 1 + xs.length = si + (x :: xs).length := by
      rw [List.length_cons]
      omega
    rw [List.cons_append,sfnChars,sfnChars,ih,hnext]
    split
    · rfl
    · rw [List.append_assoc]

theorem sfnChars_spaces (si k : ℕ) : sfnChars si (List.replicate k ' ') = [] := by
  induction k generalizing si with
  | zero => rfl
  | succ k ih =>
    rw [List.replicate_succ,sfnChars,if_pos rfl,ih]

/-- Away from the place of the dot, the characters of a name are copied. -/
theorem sfnChars_copy {si : ℕ} {cs : List Char} (hcs : ∀ c ∈ cs,Graphic c)
    (hsi : si + cs.length ≤ 8 ∨ 8 < si) : sfnChars si cs = cs := by
  induction cs generalizing si with
  | nil => rfl
  | cons c cs ih =>
    have hc := hcs c List.mem_cons_self
    have hspace : c ≠ ' ' := hc.ne not_graphic_space
    have hrddem : c ≠ RDDEM := hc.ne not_graphic_rddem
    rw [List.length_cons] at hsi
    have hplace : si ≠ 8 := by omega
    rw [sfnChars,if_neg hspace]
    simp only [if_neg hrddem,if_neg hplace]
    rw [ih (fun c h => hcs c (List.mem_cons_of_mem _ h)) (by omega)]
    rfl

theorem sfnChars_restore (sfn : List Char) :
    sfnChars 0 (if sfn.headD nul = DDEM then sfn.set 0 RDDEM else sfn) = sfnChars 0 sfn := by
  have hspace : DDEM ≠ ' ' ∧ RDDEM ≠ ' ' ∧ DDEM ≠ RDDEM := by decide
  split
  · rename_i hfirst
    cases sfn with
    | nil => rfl
    | cons c rest =>
      obtain rfl : c = DDEM := hfirst
      simp [sfnChars,hspace]
  · rfl

/-- `get_fileinfo` gives back the name that is stored. -/
theorem sfnChars_field (n : ShortName) : sfnChars 0 n.field = n.text := by
  have hbody : sfnChars 0 (pad 8 n.body) = n.body := by
    rw [pad,sfnChars_append,sfnChars_spaces,List.append_nil]
    apply sfnChars_copy n.body_chars
    left
    have := n.body_le
    omega
  have hext : sfnChars 8 (pad 3 n.ext) = if n.ext = [] then [] else '.' :: n.ext := by
    rw [pad,sfnChars_append,sfnChars_spaces,List.append_nil]
    cases hn : n.ext with
    | nil => rfl
    | cons c cs =>
      have hchars : ∀ d ∈ c :: cs,Graphic d := by
        rw [← hn]
        exact n.ext_chars
      have hc := hchars c List.mem_cons_self
      have hspace : c ≠ ' ' := hc.ne not_graphic_space
      have hrddem : c ≠ RDDEM := hc.ne not_graphic_rddem
      have hrest : sfnChars 9 cs = cs :=
        sfnChars_copy (fun d h => hchars d (List.mem_cons_of_mem _ h)) (Or.inr (by decide))
      rw [sfnChars,if_neg hspace]
      simp [hrddem,hrest]
  have hlen : 0 + (pad 8 n.body).length = 8 := by rw [length_pad n.body_le]
  rw [field,sfnChars_restore,padded,sfnChars_append,hbody,hlen,hext]
  rfl

/-- How far `create_name` has come. -/
def NameSoFar (i ni : ℕ) (sfn : List Char) : Prop :=
  ∃ n : ShortName,sfn = padded n.body n.ext ∧
    (ni = 8 ∧ n.ext = [] ∧ i = n.body.length ∨ ni = 11 ∧ i = 8 + n.ext.length)

theorem NameSoFar.push {i ni : ℕ} {sfn : List Char} (h : NameSoFar i ni sfn) (hi : i < ni) {c : Char}
    (hc : Graphic c) : NameSoFar (i + 1) ni (sfn.set i c) := by
  obtain ⟨n,rfl,hplace⟩ := h
  have hall : ∀ cs : List Char,(∀ d ∈ cs,Graphic d) → ∀ d ∈ cs ++ [c],Graphic d := by
    intro cs hcs d hd
    rcases List.mem_append.mp hd with hd | hd
    · exact hcs d hd
    · rw [List.mem_singleton.mp hd]
      exact hc
  rcases hplace with ⟨rfl,hext,rfl⟩ | ⟨rfl,rfl⟩
  · refine ⟨⟨n.body ++ [c],n.ext,?_,n.ext_le,hall _ n.body_chars,n.ext_chars⟩,?_,Or.inl ⟨rfl,hext,?_⟩⟩
    · rw [List.length_append,List.length_singleton]
      omega
    · show _ = pad 8 (n.body ++ [c]) ++ pad 3 n.ext
      rw [padded,List.set_append_left _ _ (by rw [length_pad n.body_le]; exact hi),pad_set hi]
    · simp
  · have hext : n.ext.length < 3 := by omega
    have hlen : (pad 8 n.body).length = 8 := length_pad n.body_le
    refine ⟨⟨n.body,n.ext ++ [c],n.body_le,?_,n.body_chars,hall _ n.ext_chars⟩,?_,Or.inr ⟨rfl,?_⟩⟩
    · rw [List.length_append,List.length_singleton]
      omega
    · show _ = pad 8 n.body ++ pad 3 (n.ext ++ [c])
      rw [padded,List.set_append_right _ _ (by omega),hlen,Nat.add_sub_cancel_left,pad_set hext]
    · simp
      omega

theorem graphic_of_not_le {c : Char} (h : ¬c ≤ ' ') : Graphic c := by
  rw [Char.not_le,Char.lt_def,UInt32.lt_iff_toNat_lt] at h
  exact h

theorem graphic_toUpperSfn {c : Char} (h : Graphic c) : Graphic (toUpperSfn c) := by
  rw [toUpperSfn]
  split
  · rename_i hlower
    have hlow : 0x61 ≤ c.toNat := UInt32.le_iff_toNat_le.mp (Char.le_def.mp hlower.1)
    have hhigh : c.toNat ≤ 0x7A := UInt32.le_iff_toNat_le.mp (Char.le_def.mp hlower.2)
    have hvalid : (c.toNat - 0x20).isValidChar := Or.inl (by omega)
    have hupper : (Char.ofNat (c.toNat - 0x20)).toNat = c.toNat - 0x20 := by
      rw [Char.ofNat,dif_pos hvalid]
      rfl
    have hspace : ' '.toNat = 0x20 := rfl
    rw [Graphic,hupper]
    omega
  · exact h

theorem graphic_of_dbc2nd {c : Char} (h : dbc2nd c) : Graphic c := by
  have hspace : ' '.toNat = 0x20 := rfl
  simp only [dbc2nd,Bool.or_eq_true,Bool.and_eq_true,decide_eq_true_eq] at h
  rw [Graphic]
  omega

theorem NameSoFar.createNameFrom {p : List Char} {i ni : ℕ} {sfn : List Char}
    (h : NameSoFar i ni sfn) {r : ℕ × List Char} (hr : createNameFrom p i ni sfn = some r) :
    ∃ ni',NameSoFar r.1 ni' r.2 := by
  fun_induction UcVfs.createNameFrom p i ni sfn with
  | case1 i ni sfn =>
    cases hr
    exact ⟨_,h⟩
  | case2 i ni sfn c p hc =>
    cases hr
    exact ⟨_,h⟩
  | case3 i ni sfn c p hc hsep =>
    cases hr
    exact ⟨_,h⟩
  | case4 => cases hr
  | case5 i ni sfn c p hc hsep hfull hdot ih =>
    -- the dot ends the body
    obtain ⟨n,hn,hplace⟩ := h
    have hext : n.ext = [] := by
      rcases hplace with ⟨_,hext,_⟩ | ⟨hni,_⟩
      · exact hext
      · exact absurd (Or.inl hni) hdot
    exact ih ⟨n,hn,Or.inr ⟨rfl,by rw [hext]; rfl⟩⟩ hr
  | case6 => cases hr
  | case7 => cases hr
  | case8 i ni sfn c hc hsep hfull hfirst d p hsecond ih =>
    rw [not_or,not_le] at hfull hsecond
    rw [not_not] at hsecond
    have hone := h.push hfull.2 (graphic_of_not_le hc)
    exact ih (hone.push (by omega) (graphic_of_dbc2nd hsecond.1)) hr
  | case9 => cases hr
  | case10 i ni sfn c p hc hsep hfull hfirst hlegal ih =>
    rw [not_or,not_le] at hfull
    exact ih (h.push hfull.2 (graphic_toUpperSfn (graphic_of_not_le hc))) hr

/-- Every name that FatFs accepts is stored as an 8.3 name. -/
theorem createName_field {path sfn : List Char} (h : createName path = some sfn) :
    ∃ n : ShortName,sfn = n.field := by
  rw [createName] at h
  have hstart : NameSoFar 0 8 (List.replicate 11 ' ') :=
    ⟨⟨[],[],by simp,by simp,by simp,by simp⟩,rfl,Or.inl ⟨rfl,rfl,rfl⟩⟩
  cases hloop : UcVfs.createNameFrom path 0 8 (List.replicate 11 ' ') with
  | none =>
    rw [hloop] at h
    cases h
  | some r =>
    obtain ⟨_,n,hn,_⟩ := hstart.createNameFrom hloop
    refine ⟨n,?_⟩
    rw [hloop] at h
    simp only [hn] at h
    rw [field]
    by_cases hi : r.1 = 0
    · simp [hi] at h
    · rw [if_neg hi] at h
      split at h
      · rename_i hfirst
        rw [if_pos hfirst]
        exact (Option.some.inj h).symm
      · rename_i hfirst
        rw [if_neg hfirst]
        exact (Option.some.inj h).symm

/-! Reading a table. -/

/-- The entries that count. -/
def entriesIn (slots : List FatSlot) : List FatSlot :=
  (slots.takeWhile (·.first ≠ nul)).filter (·.Valid)

/-- The entries that a read pointer has not passed. -/
def DirPtr.ahead (table : List FatSlot) (dp : DirPtr) : List FatSlot :=
  if dp.sectZero then [] else entriesIn (table.drop dp.dptr)

theorem dirReadFrom_spec (slots : List FatSlot) (i : ℕ) :
    dirReadFrom slots i = none ∧ entriesIn slots = [] ∨
      ∃ j e,dirReadFrom slots i = some (i + j) ∧ slots[j]? = some e ∧
        entriesIn slots = e :: entriesIn (slots.drop (j + 1)) := by
  induction slots generalizing i with
  | nil => exact Or.inl ⟨rfl,rfl⟩
  | cons e rest ih =>
    rw [dirReadFrom]
    by_cases hend : e.first = nul
    · left
      rw [if_pos hend,entriesIn,List.takeWhile_cons_of_neg (by simp [hend])]
      exact ⟨rfl,rfl⟩
    · rw [if_neg hend,entriesIn,List.takeWhile_cons_of_pos (by simp [hend])]
      by_cases hvalid : e.Valid
      · right
        refine ⟨0,e,by rw [if_pos hvalid]; rfl,rfl,?_⟩
        rw [List.filter_cons_of_pos (by simpa using hvalid)]
        rfl
      · rw [if_neg hvalid,List.filter_cons_of_neg (by simpa using hvalid)]
        rcases ih (i + 1) with h | ⟨j,e',hread,hget,hentries⟩
        · exact Or.inl h
        · right
          refine ⟨j + 1,e',?_,hget,hentries⟩
          rw [hread,Nat.add_assoc,Nat.add_comm 1 j]

theorem dirNext_ahead (table : List FatSlot) (i : ℕ) :
    (dirNext table ⟨i,false⟩).2.ahead table = entriesIn (table.drop (i + 1)) ∧
      ((dirNext table ⟨i,false⟩).1 = .ok ∨ (dirNext table ⟨i,false⟩).1 = .noFile) := by
  rw [dirNext]
  simp only [Bool.false_eq_true,if_false]
  split
  · exact ⟨rfl,Or.inl rfl⟩
  · rename_i hlast
    refine ⟨?_,Or.inr rfl⟩
    rw [List.drop_of_length_le (not_lt.mp hlast)]
    rfl

/-- `f_readdir` reports the first entry ahead, or the end. -/
theorem fReaddir_spec (table : List FatSlot) (fno : FilInfo) (dp : DirPtr) :
    (fReaddir table fno dp).1.1 = .ok ∧
      (dp.ahead table = [] ∧ (fReaddir table fno dp).1.2.fname.headD nul = nul ∨
        ∃ e,dp.ahead table = e :: (fReaddir table fno dp).2.ahead table ∧
          (fReaddir table fno dp).1.2.fname = sfnChars 0 e.name ++ [nul]) := by
  cases hsect : dp.sectZero with
  | true => simp [DirPtr.ahead,hsect,fReaddir,dirRead,getFileinfo,dirNext]
  | false =>
    have hahead : dp.ahead table = entriesIn (table.drop dp.dptr) := by simp [DirPtr.ahead,hsect]
    rw [hahead]
    rcases dirReadFrom_spec (table.drop dp.dptr) dp.dptr with
      ⟨hread,hnone⟩ | ⟨j,e,hread,hget,hentries⟩
    · refine ⟨?_,Or.inl ⟨hnone,?_⟩⟩
      · simp [fReaddir,dirRead,hsect,hread,dirNext]
      · simp [fReaddir,dirRead,hsect,hread,getFileinfo]
    · obtain ⟨hnext,hres⟩ := dirNext_ahead table (dp.dptr + j)
      rw [List.getElem?_drop] at hget
      rw [List.drop_drop] at hentries
      refine ⟨?_,Or.inr ⟨e,?_,?_⟩⟩
      · simp only [fReaddir,dirRead,hsect,hread,Bool.false_eq_true,if_false]
        rcases hres with h | h <;> simp [h]
      · rw [hentries,← Nat.add_assoc,← hnext]
        simp [fReaddir,dirRead,hsect,hread]
      · simp [fReaddir,dirRead,hsect,hread,getFileinfo,hget]

/-- A table with the names that it holds, in their order. -/
structure RootTable where
  slots : List FatSlot
  names : List ShortName
  stored : (entriesIn slots).map FatSlot.name = names.map field

theorem ShortName.text_graphic (n : ShortName) : ∀ c ∈ n.text,Graphic c := by
  have hdot : Graphic '.' := by simp [Graphic]
  intro c hc
  rcases List.mem_append.mp hc with hbody | hext
  · exact n.body_chars c hbody
  · split at hext
    · cases hext
    · rcases List.mem_cons.mp hext with rfl | hext
      · exact hdot
      · exact n.ext_chars c hext

theorem ShortName.text_length (n : ShortName) : n.text.length ≤ 12 := by
  have hbody := n.body_le
  have hext := n.ext_le
  rw [text,List.length_append]
  split
  · simp
    omega
  · simp
    omega

theorem ShortName.text_eq_nil {n : ShortName} : n.text = [] ↔ n.Blank := by
  rw [text,List.append_eq_nil_iff,Blank]
  refine and_congr_right fun _ => ?_
  split
  · rename_i h
    simp [h]
  · rename_i h
    simp [h]

end UcVfs
