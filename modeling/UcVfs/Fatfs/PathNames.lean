import UcVfs.Fatfs.DirVolume
import UcVfs.Fatfs.PathOps
import Mathlib.Data.List.Destutter

/-!
# Paths handed to FatFs

Which file the path strings of the adapter name, and when that is the file that the caller
of the VFS named.
-/

namespace UcVfs

open Framework

/-- Neighbours that are both slashes are one separator. -/
def Distinct (a b : Char) : Prop := ¬(a = '/' ∧ b = '/')

instance : DecidableRel Distinct := fun _ _ => inferInstanceAs (Decidable (¬_))

/-- Repeated slashes collapsed. -/
def collapse (cs : List Char) : List Char := cs.destutter Distinct

/-- The path behind the optional drive prefix. -/
def snipDrive : List Char → List Char
  | d :: ':' :: cs => if d.isDigit then cs else d :: ':' :: cs
  | cs => cs

/-- The object below the root directory that a relative path names. -/
def canonical (rel : CStr) : List Char := collapse ('/' :: rel.chars)

/-- The object that FatFs finds under a path. -/
def named (path : CStr) : List Char := collapse (snipDrive path.chars)

theorem snipDrive_slash (cs : List Char) : snipDrive ('/' :: cs) = '/' :: cs := by
  have hdigit : '/'.isDigit = false := by decide
  unfold snipDrive
  split
  · rename_i d ds heq
    obtain ⟨rfl,rfl⟩ := List.cons.inj heq
    rw [hdigit]
    rfl
  · rfl

section Collapse

private theorem destutter_head (a : Char) (cs : List Char) :
    ∃ t,cs.destutter' Distinct a = a :: t := by
  induction cs with
  | nil => exact ⟨[],rfl⟩
  | cons c cs ih =>
    by_cases h : Distinct a c
    · rw [List.destutter'_cons_pos _ h]
      exact ⟨_,rfl⟩
    · rw [List.destutter'_cons_neg _ h]
      exact ih

private theorem destutter_append (a : Char) (cs ds : List Char) :
    (cs ++ ds).destutter' Distinct a =
      cs.destutter' Distinct a ++ (ds.destutter' Distinct (cs.getLastD a)).tail := by
  induction cs generalizing a with
  | nil =>
    obtain ⟨t,ht⟩ := destutter_head a ds
    simp [ht]
  | cons c cs ih =>
    rw [List.cons_append,List.getLastD_cons]
    by_cases h : Distinct a c
    · rw [List.destutter'_cons_pos _ h,List.destutter'_cons_pos _ h,ih c,List.cons_append]
    · obtain ⟨rfl,rfl⟩ : a = '/' ∧ c = '/' := not_not.mp h
      rw [List.destutter'_cons_neg _ h,List.destutter'_cons_neg _ h,ih]

private theorem destutter_tail (a : Char) (cs : List Char) :
    (cs.destutter' Distinct a).tail = [] ↔ cs = [] ∨ a = '/' ∧ ∀ c ∈ cs,c = '/' := by
  induction cs with
  | nil => simp
  | cons c cs ih =>
    by_cases h : Distinct a c
    · obtain ⟨t,ht⟩ := destutter_head c cs
      rw [List.destutter'_cons_pos _ h,List.tail_cons,ht]
      apply iff_of_false (List.cons_ne_nil c t)
      rintro (hnil | hall)
      · simp at hnil
      · exact h ⟨hall.1,hall.2 c (by simp)⟩
    · obtain ⟨rfl,rfl⟩ : a = '/' ∧ c = '/' := not_not.mp h
      rw [List.destutter'_cons_neg _ h,ih]
      constructor
      · rintro (rfl | hall)
        · simp
        · exact Or.inr ⟨rfl,by simpa using hall.2⟩
      · rintro (hnil | hall)
        · simp at hnil
        · exact Or.inr ⟨rfl,fun d hd => hall.2 d (by simp [hd])⟩

/-- A tail is lost in collapsing when it only repeats the slash before it. -/
theorem collapse_append_eq (a : Char) (cs ds : List Char) :
    collapse (a :: cs ++ ds) = collapse (a :: cs) ↔
      ds = [] ∨ cs.getLastD a = '/' ∧ ∀ d ∈ ds,d = '/' := by
  change (cs ++ ds).destutter' Distinct a = cs.destutter' Distinct a ↔ _
  rw [destutter_append,List.append_right_eq_self,destutter_tail]

end Collapse

/-- At most `n` characters, or nothing but repeated slashes is beyond them. -/
def Fits (n : Nat) (rel : CStr) : Prop :=
  rel.length ≤ n ∨ rel.at_ (n - 1) = '/' ∧ ∀ c ∈ rel.chars.drop n,c = '/'

instance (n : Nat) (rel : CStr) : Decidable (Fits n rel) :=
  have := List.decidableBAll (· = '/') (rel.chars.drop n)
  inferInstanceAs (Decidable (_ ∨ _ ∧ _))

/-- Cutting a relative path keeps what it names exactly when it fits. -/
theorem collapse_take {n : Nat} (hn : 0 < n) (rel : CStr) :
    collapse ('/' :: rel.chars.take n) = canonical rel ↔ Fits n rel := by
  have hsplit : canonical rel = collapse ('/' :: rel.chars.take n ++ rel.chars.drop n) := by
    rw [List.cons_append,List.take_append_drop]
    rfl
  rw [hsplit,eq_comm,collapse_append_eq,List.drop_eq_nil_iff]
  change rel.length ≤ n ∨ _ ↔ rel.length ≤ n ∨ _
  by_cases hlen : rel.length ≤ n
  · simp only [hlen,true_or]
  · have hlong : n < rel.chars.length := not_le.mp hlen
    have hlast : (rel.chars.take n).getLastD '/' = rel.at_ (n - 1) := by
      rw [List.getLastD_eq_getLast?,List.getLast?_eq_getElem?,List.length_take,
        min_eq_left hlong.le,List.getElem?_take_of_lt (by omega)]
      simp [CStr.at_,show n - 1 < rel.chars.length by omega]
    rw [hlast]

section Operations

variable {Mnt : Type} {ff : FatFs Mnt}

namespace PathOp

/-- The relative paths that the operation is about. -/
def names : PathOp ff → List CStr
  | rename fromPath toPath => [fromPath,toPath]
  | op => [op.name]

/-- The buffer of the mount has room for the relative path, and the one for the destination of
a rename, whose drive prefix is longer. -/
def Fits : PathOp ff → Prop
  | rename fromPath toPath => UcVfs.Fits (FATFS_MAX_ABS_PATH_SIZE - 2) fromPath ∧
      UcVfs.Fits (FATFS_MAX_ABS_PATH_SIZE - 4) toPath
  | op => UcVfs.Fits (FATFS_MAX_ABS_PATH_SIZE - 2) op.name

variable [DecidableEq Mnt]

/-- The paths that the operation hands to FatFs, each with the relative path it is for. -/
def pathsSent (m : Mnt) (op : PathOp ff) (s : FatState ff) : Option (List (CStr × CStr)) :=
  ((op.prog m).run FatAct.exec { s with calls := [] }).map fun v =>
    v.2.calls.flatMap fun call => call.paths.zip op.names

end PathOp

theorem FatfsDesc.named_builtPath {d : FatfsDesc}
    (hbuf : d.absPathStrBuff.length = FATFS_MAX_ABS_PATH_SIZE) (name : CStr) :
    named (d.builtPath name) = canonical name ↔ Fits (FATFS_MAX_ABS_PATH_SIZE - 2) name := by
  rw [named,builtPath_chars hbuf,snipDrive_slash]
  exact collapse_take (n := FATFS_MAX_ABS_PATH_SIZE - 2) (by decide) name

/-- What fits is cut to something that names the same. -/
theorem Fits.collapse_eq {n : Nat} (hn : 0 < n) {rel : CStr} (h : Fits n rel) :
    collapse rel.chars = collapse (rel.chars.take n) := by
  by_cases hlen : rel.length ≤ n
  · rw [List.take_of_length_le hlen]
  · have hlong : n < rel.chars.length := not_le.mp hlen
    have htail := h.resolve_left hlen
    obtain ⟨c,cs,hcs⟩ := List.exists_cons_of_length_pos (by omega : 0 < rel.chars.length)
    obtain ⟨k,rfl⟩ := Nat.exists_eq_succ_of_ne_zero hn.ne'
    have hlast : (cs.take k).getLastD c = '/' := by
      rw [← htail.1,CStr.at_,hcs]
      rw [hcs,List.length_cons] at hlong
      cases k with
      | zero => simp
      | succ k =>
        rw [List.getLastD_eq_getLast?,List.getLast?_eq_getElem?,List.length_take,
          min_eq_left (by omega),List.getElem?_take_of_lt (by omega)]
        simp [show k < cs.length by omega]
    have happend := (collapse_append_eq c (cs.take k) (cs.drop k)).mpr
      (Or.inr ⟨hlast,by simpa [hcs] using htail.2⟩)
    rw [hcs,List.take_succ_cons,← happend,List.cons_append,List.take_append_drop]

/-- The buffer of `_rename` for the destination. -/
def renameBuff (d : FatfsDesc) (toPath : CStr) : CStr :=
  CStr.ofList (snprintf (List.replicate FATFS_MAX_ABS_PATH_SIZE nul) FATFS_MAX_ABS_PATH_SIZE
    [.uint d.volIdx,.lit [':','/'],.str toPath])

theorem renameBuff_chars {d : FatfsDesc} (hvol : d.volIdx = 0) (toPath : CStr) :
    (renameBuff d toPath).chars =
      '0' :: ':' :: '/' :: toPath.chars.take (FATFS_MAX_ABS_PATH_SIZE - 4) := by
  have hchars : [Piece.uint d.volIdx,.lit [':','/'],.str toPath].flatMap Piece.chars =
      '0' :: ':' :: '/' :: toPath.chars := by
    simp [Piece.chars,hvol]
  have hnul : nul ∉ '0' :: ':' :: '/' :: toPath.chars := by
    intro hm
    simp only [List.mem_cons] at hm
    rcases hm with he | he | he | hm
    · exact absurd he (by decide)
    · exact absurd he (by decide)
    · exact absurd he (by decide)
    · exact toPath.noNul hm
  rw [renameBuff,snprintf_chars (List.length_replicate ..) (by decide) _
    (by rw [hchars]; exact hnul),hchars]
  rfl

theorem named_renameBuff {d : FatfsDesc} (hvol : d.volIdx = 0) (toPath : CStr) :
    named (renameBuff d toPath) = canonical toPath ↔
      Fits (FATFS_MAX_ABS_PATH_SIZE - 4) toPath := by
  rw [named,renameBuff_chars hvol]
  exact collapse_take (n := FATFS_MAX_ABS_PATH_SIZE - 4) (by decide) toPath

/-- How a path that fits is sent: with or without the drive prefix. -/
def SentAs (e : CStr × CStr) : Prop :=
  (e.1.chars = '/' :: e.2.chars.take (FATFS_MAX_ABS_PATH_SIZE - 2) ∧
    Fits (FATFS_MAX_ABS_PATH_SIZE - 2) e.2) ∨
  (e.1.chars = '0' :: ':' :: '/' :: e.2.chars.take (FATFS_MAX_ABS_PATH_SIZE - 4) ∧
    Fits (FATFS_MAX_ABS_PATH_SIZE - 4) e.2)

theorem SentAs.not_confused {e e' : CStr × CStr} (h : SentAs e) (h' : SentAs e')
    (he : e.1 = e'.1) : collapse e.2.chars = collapse e'.2.chars := by
  rcases h with ⟨hc,hfit⟩ | ⟨hc,hfit⟩ <;> rcases h' with ⟨hc',hfit'⟩ | ⟨hc',hfit'⟩
  · rw [he,hc',List.cons_inj_right] at hc
    rw [hfit.collapse_eq (by decide),hfit'.collapse_eq (by decide),hc]
  · rw [he,hc'] at hc
    exact absurd (List.cons.inj hc).1 (by decide)
  · rw [he,hc'] at hc
    exact absurd (List.cons.inj hc).1 (by decide)
  · rw [he,hc',List.cons_inj_right,List.cons_inj_right,List.cons_inj_right] at hc
    rw [hfit.collapse_eq (by decide),hfit'.collapse_eq (by decide),hc]

variable [DecidableEq Mnt] {m : Mnt} {s : FatState ff}

theorem pathsSent_rename (fromPath toPath : CStr) :
    (PathOp.rename fromPath toPath : PathOp ff).pathsSent m s =
      some [((s.descs m).builtPath fromPath,fromPath),(renameBuff (s.descs m) toPath,toPath)] := by
  simp [PathOp.pathsSent,PathOp.prog,Fatfs.rename,Prog.run,FatAct.exec,FatState.called,
    PathOp.names,FatCall.paths,FatfsDesc.builtPath,renameBuff,FatfsDesc.buildAbsPath]

/-- All operations but the rename hand out the path that they built, and nothing else. -/
theorem pathsSent_single (op : PathOp ff) (hop : op.names = [op.name])
    (hbuf : (s.descs m).absPathStrBuff.length = FATFS_MAX_ABS_PATH_SIZE) :
    ∃ es,op.pathsSent m s = some es ∧ es ≠ [] ∧
      ∀ e ∈ es,e = ((s.descs m).builtPath op.name,op.name) := by
  obtain ⟨r,s',hrun,hgood⟩ := op.run_good m (s := { s with calls := [] }) hbuf rfl
  have hzip : ∀ call ∈ s'.calls,call.paths.zip op.names =
      [((s.descs m).builtPath op.name,op.name)] := by
    intro call hc
    obtain ⟨tail,htail⟩ := List.head?_eq_some_iff.mp (hgood.calls call hc)
    simp [hop,htail]
  refine ⟨_,by rw [PathOp.pathsSent,hrun]; rfl,?_,?_⟩
  · obtain ⟨call,hc⟩ := List.exists_mem_of_ne_nil _ (hgood.called rfl)
    intro hnil
    have hempty := List.flatMap_eq_nil_iff.mp hnil call hc
    rw [hzip call hc] at hempty
    exact List.cons_ne_nil _ _ hempty
  · intro e he
    obtain ⟨call,hc,hmem⟩ := List.mem_flatMap.mp he
    rw [hzip call hc] at hmem
    exact List.mem_singleton.mp hmem

/-- What one operation sends, and when it names what its caller named. -/
theorem pathsSent_fits (op : PathOp ff) (hvol : (s.descs m).volIdx = 0)
    (hbuf : (s.descs m).absPathStrBuff.length = FATFS_MAX_ABS_PATH_SIZE) :
    ∃ es,op.pathsSent m s = some es ∧ ((∀ e ∈ es,named e.1 = canonical e.2) ↔ op.Fits) ∧
      (op.Fits → ∀ e ∈ es,SentAs e) := by
  by_cases hop : op.names = [op.name]
  · obtain ⟨es,hsent,hne,hall⟩ := pathsSent_single op hop hbuf
    have hfits : op.Fits ↔ Fits (FATFS_MAX_ABS_PATH_SIZE - 2) op.name := by
      cases op with
      | rename => simp [PathOp.names,PathOp.name] at hop
      | _ => rfl
    refine ⟨es,hsent,?_,?_⟩
    · rw [hfits,← FatfsDesc.named_builtPath hbuf]
      constructor
      · intro h
        obtain ⟨e,he⟩ := List.exists_mem_of_ne_nil _ hne
        simpa [hall e he] using h e he
      · intro h e he
        rw [hall e he]
        exact h
    · intro hfit e he
      rw [hall e he]
      exact Or.inl ⟨FatfsDesc.builtPath_chars hbuf op.name,hfits.mp hfit⟩
  · cases op with
    | rename fromPath toPath =>
      refine ⟨_,pathsSent_rename fromPath toPath,?_,?_⟩
      · simp [PathOp.Fits,← FatfsDesc.named_builtPath hbuf,← named_renameBuff hvol]
      · intro hfit e he
        simp only [List.mem_cons,List.not_mem_nil,or_false] at he
        rcases he with rfl | rfl
        · exact Or.inl ⟨FatfsDesc.builtPath_chars hbuf fromPath,hfit.1⟩
        · exact Or.inr ⟨renameBuff_chars hvol toPath,hfit.2⟩
    | _ => exact absurd rfl hop

/-- The paths sent name what the caller named exactly when they fit their buffers; and two
operations that fit are never confused: one path is sent for one name only, and an object is
found under every path sent for it. -/
theorem fatfs_names (s s' : FatState ff) (m : Mnt) (hvol : (s.descs m).volIdx = 0)
    (hbuf : (s.descs m).absPathStrBuff.length = FATFS_MAX_ABS_PATH_SIZE)
    (hvol' : (s'.descs m).volIdx = 0)
    (hbuf' : (s'.descs m).absPathStrBuff.length = FATFS_MAX_ABS_PATH_SIZE) (op op' : PathOp ff) :
    ∃ es es',op.pathsSent m s = some es ∧ op'.pathsSent m s' = some es' ∧
      ((∀ e ∈ es,named e.1 = canonical e.2) ↔ op.Fits) ∧
      (op.Fits → op'.Fits → ∀ e ∈ es,∀ e' ∈ es',
        (e.1 = e'.1 → collapse e.2.chars = collapse e'.2.chars) ∧
        (canonical e.2 = canonical e'.2 → named e.1 = named e'.1)) := by
  obtain ⟨es,hsent,hiff,has⟩ := pathsSent_fits op hvol hbuf
  obtain ⟨es',hsent',hiff',has'⟩ := pathsSent_fits op' hvol' hbuf'
  refine ⟨es,es',hsent,hsent',hiff,?_⟩
  intro hfit hfit' e he e' he'
  refine ⟨(has hfit e he).not_confused (has' hfit' e' he'),?_⟩
  intro hsame
  rw [hiff.mpr hfit e he,hiff'.mpr hfit' e' he',hsame]

/-- One mount, not used yet. -/
def oneMount : FatState ((dirCore followPlain).fatFs Unit) where
  descs _ := ⟨0,0,List.replicate FATFS_MAX_ABS_PATH_SIZE nul⟩
  workMtx := 0
  sys := ⟨none,fun _ => none,none,0,fun _ => ⟨none,0,()⟩⟩
  calls := []

theorem fatfs_names_rename :
    let op : PathOp ((dirCore followPlain).fatFs Unit) :=
      .rename (CStr.ofList ['a','/','/','b']) (CStr.ofList ['c'])
    let op' : PathOp ((dirCore followPlain).fatFs Unit) := .unlink (CStr.ofList ['c'])
    ∃ es es',op.pathsSent () oneMount = some es ∧ op'.pathsSent () oneMount = some es' ∧
      (∀ e ∈ es,named e.1 = canonical e.2) ∧
      ∀ e ∈ es,∀ e' ∈ es',(e.1 = e'.1 → collapse e.2.chars = collapse e'.2.chars) ∧
        (canonical e.2 = canonical e'.2 → named e.1 = named e'.1) := by
  intro op op'
  have hfit : op.Fits := ⟨by decide,by decide⟩
  have hfit' : op'.Fits := show UcVfs.Fits _ _ by decide
  obtain ⟨es,es',hsent,hsent',hiff,hboth⟩ := fatfs_names oneMount oneMount () rfl rfl rfl rfl
    op op'
  exact ⟨es,es',hsent,hsent',hiff.mpr hfit,hboth hfit hfit'⟩

/-- Two names that differ in the 37th character are sent as one, and a destination loses its
35th character. -/
theorem names_cut :
    let long (n : Nat) (c : Char) := CStr.ofList (List.replicate n 'n' ++ [c])
    let sent (op : PathOp ((dirCore followPlain).fatFs Unit)) :=
      (op.pathsSent () oneMount).map (List.map fun e => e.1.chars)
    canonical (long 36 '1') ≠ canonical (long 36 '2') ∧
    sent (.unlink (long 36 '1')) = some ['/' :: List.replicate 36 'n'] ∧
    sent (.unlink (long 36 '2')) = some ['/' :: List.replicate 36 'n'] ∧
    sent (.rename (CStr.ofList ['a']) (long 34 '1')) =
      some [['/','a'],'0' :: ':' :: '/' :: List.replicate 34 'n'] := by
  decide +kernel

end Operations

end UcVfs
