import UcVfs.Fatfs.FileEntry

/-!
# Calls on open files

What `f_read`, `f_write`, `f_lseek`, `f_sync` and `f_close` do to a file over the FAT is what they do
to the same file in a directory without clusters. Only where no cluster is free any more they fall
short.
-/

namespace UcVfs.Fatfs

open Framework

/-- A call on a file object, with what the caller hands over. -/
inductive FileOp
  | fRead (btr : ℕ) (rbuff : Mem)
  | fWrite (data : List UInt8)
  | fLseek (ofs : ℕ)
  | fSync
  | fClose

/-- What a call gives back: the bytes that were read, and the number of those that were written. -/
structure Outcome where
  res : FResult
  data : List UInt8
  count : ℕ

section Calls

variable (v : MountedVolume) (validate : Fil Mem → FATFS → FResult) (d : DirPlace v.toGeometry)

/-- `f_close`; there is no object any more. -/
def FATFS.fClose (fp : Fil Mem) (fs : FATFS) : FResult × Option (Fil Mem) × FATFS :=
  let (res,fp,fs) := FATFS.fSync v validate d fp fs
  if res = .ok then
    let res := validate fp fs
    (res,if res = .ok then none else some fp,fs)
  else (res,some fp,fs)

/-- A call on a file object. -/
def perform : FileOp → Fil Mem → FATFS → Outcome × Option (Fil Mem) × FATFS
  | .fRead btr rbuff,fp,fs =>
    let ((res,br,rbuff),fp,fs) := FATFS.fRead v.toGeometry validate btr rbuff fp fs
    (⟨res,bytesFrom rbuff 0 br,0⟩,some fp,fs)
  | .fWrite data,fp,fs =>
    let ((res,bw),fp,fs) := FATFS.fWrite v.toGeometry validate data.length (memOf data) fp fs
    (⟨res,[],bw⟩,some fp,fs)
  | .fLseek ofs,fp,fs =>
    let (res,fp,fs) := (v.volume validate).fLseek ofs fp fs
    (⟨res,[],0⟩,some fp,fs)
  | .fSync,fp,fs =>
    let (res,fp,fs) := FATFS.fSync v validate d fp fs
    (⟨res,[],0⟩,some fp,fs)
  | .fClose,fp,fs =>
    let (res,st,fs) := FATFS.fClose v validate d fp fs
    (⟨res,[],0⟩,st,fs)

end Calls

/-- What a call is for the file and its directory, without clusters. Writing may stop early and moving
may stop short, but only when no cluster is free behind. The bytes between the old end of the file and
a new pointer are not determined. -/
inductive Serves {Name : Type} [DecidableEq Name] (free : ℕ) (dir : RootDir Name) (o : FilObj Name) :
    FileOp → Outcome → RootDir Name → Option (FilObj Name) → Prop
  | fRead {btr : ℕ} {rbuff : Mem} :
    Serves free dir o (.fRead btr rbuff) ⟨(UcVfs.fRead btr o).1.1,(UcVfs.fRead btr o).1.2,0⟩ dir
      (some (UcVfs.fRead btr o).2)
  | fWrite {data : List UInt8} {k : ℕ} (hk : k ≤ data.length)
      (hshort : k < data.length → free = 0 ∨ o.flag &&& FA_WRITE = 0) :
    Serves free dir o (.fWrite data)
      ⟨(UcVfs.fWrite (data.take k) o).1.1,[],(UcVfs.fWrite (data.take k) o).1.2⟩ dir
      (some (UcVfs.fWrite (data.take k) o).2)
  | fLseek {ofs stop : ℕ} {buf : List UInt8} (hstop : stop ≤ ofs) (hshort : stop < ofs → free = 0)
      (hbuf : buf.take o.objsize = o.buf.take o.objsize) :
    Serves free dir o (.fLseek ofs) ⟨(UcVfs.fLseek stop o).1,[],0⟩ dir
      (some { (UcVfs.fLseek stop o).2 with buf := buf })
  | fSync :
    Serves free dir o .fSync ⟨(UcVfs.fSync o dir).1.1,[],0⟩ (UcVfs.fSync o dir).2
      (some (UcVfs.fSync o dir).1.2)
  | fClose (hok : (UcVfs.fClose o dir).1.1 = .ok) :
    Serves free dir o .fClose ⟨.ok,[],0⟩ (UcVfs.fClose o dir).2 none

section Represents

variable {ι Name : Type} [DecidableEq ι] {g : Geometry} {chains : ι → List ℕ} {i : ι} {cs cs' : List ℕ}
  {n n' : ℕ} {fp fp' : Fil Mem} {fs fs' : FATFS} {o : FilObj Name}

theorem Represents.length (h : Represents g cs fp fs o) : fp.objsize ≤ o.buf.length := by
  by_contra hlt
  have hbyte := h.bytes o.buf.length (not_le.mp hlt)
  rw [List.getElem?_eq_none le_rfl] at hbyte
  exact absurd hbyte (by simp)

/-- Access is granted to the one when it is to the other. -/
theorem Represents.granted (h : Represents g cs fp fs o) {bit : ℕ}
    (hbit : (FA_READ ||| FA_WRITE ||| FA_MODIFIED) &&& bit = bit) : o.flag &&& bit = fp.flag &&& bit := by
  have hmode := congrArg (· &&& bit) h.mode
  simp only [Fatfs.mode,Nat.and_assoc,hbit] at hmode
  exact hmode

/-- Reading gives the same bytes. -/
theorem Represents.read (h : Represents g cs fp fs o) (hr : o.flag &&& FA_READ ≠ 0) {btr : ℕ}
    {rbuff rbuff' : Mem} (hwithin : fp.fptr ≤ fp.objsize) (hcovered : fp.objsize ≤ cs.length * g.bcs)
    (hg : GivesBytes g chains i cs n (min btr (fp.objsize - fp.fptr)) 0 rbuff fp fs rbuff' fp' fs') :
    UcVfs.fRead btr o = ((.ok,bytesFrom rbuff' 0 (min btr (fp.objsize - fp.fptr))),
      { o with fptr := o.fptr + min btr (fp.objsize - fp.fptr) }) ∧
      Represents g cs fp' fs' { o with fptr := o.fptr + min btr (fp.objsize - fp.fptr) } := by
  have hlength := h.length
  have hlen : (((o.buf.take o.objsize).drop o.fptr).take btr).length =
      min btr (fp.objsize - fp.fptr) := by
    simp only [List.length_take,List.length_drop,h.fptr,h.objsize]
    omega
  have hbytes : bytesFrom rbuff' 0 (min btr (fp.objsize - fp.fptr)) =
      ((o.buf.take o.objsize).drop o.fptr).take btr := by
    rw [← hlen]
    refine bytesFrom_eq fun k hk => ?_
    rw [hlen] at hk
    rw [List.getElem?_take_of_lt (by omega),List.getElem?_drop,
      List.getElem?_take_of_lt (by rw [h.fptr,h.objsize]; omega),h.fptr,h.bytes _ (by omega),hg.bytes,
      memcpy_inside hk]
  refine ⟨?_,?_,h.objsize.trans hg.objsize.symm,h.mode.trans hg.mode.symm,fun k hk => ?_⟩
  · rw [UcVfs.fRead,if_neg hr]
    dsimp only
    rw [hbytes,hlen]
  · rw [hg.fptr,← h.fptr]
  · rw [hg.objsize] at hk
    rw [hg.content k (by omega)]
    exact h.bytes k hk

/-- Writing replaces the same bytes. -/
theorem Represents.write (h : Represents g cs fp fs o) (hw : o.flag &&& FA_WRITE ≠ 0)
    {data : List UInt8} {k : ℕ} (hk : k ≤ data.length) (hwithin : fp.fptr ≤ fp.objsize)
    (ht : TakesBytes g chains i cs n k 0 (memOf data) fp fs cs' n' fp' fs') :
    ∃ o',UcVfs.fWrite (data.take k) o = ((.ok,k),o') ∧ Represents g cs' fp' fs' o' ∧
      o'.dirPtr = o.dirPtr := by
  have hlength := h.length
  have hlen : (data.take k).length = k := by rw [List.length_take,min_eq_left hk]
  have hbefore : (o.buf.take o.fptr).length = fp.fptr := by
    rw [List.length_take,h.fptr]
    omega
  rw [UcVfs.fWrite,if_neg hw,hlen]
  refine ⟨_,rfl,⟨?_,?_,?_,fun j hj => ?_⟩,rfl⟩
  · rw [ht.fptr,← h.fptr]
  · show max (o.fptr + k) o.objsize = _
    rw [ht.objsize,h.fptr,h.objsize,max_comm]
  · show Fatfs.mode (o.flag ||| FA_MODIFIED) = _
    rw [mode_modified,ht.mode,h.mode]
  · show (o.buf.take o.fptr ++ data.take k ++ o.buf.drop (o.fptr + k))[j]? = _
    have hsize := ht.objsize
    rw [ht.content j hj]
    rcases Nat.lt_or_ge j fp.fptr with hlow | hlow
    · rw [memcpy_outside (by omega),List.append_assoc,List.getElem?_append_left (by omega),
        List.getElem?_take_of_lt (by rw [h.fptr]; omega),h.bytes j (by omega)]
    · obtain ⟨l,rfl⟩ := Nat.exists_eq_add_of_le hlow
      rcases Nat.lt_or_ge l k with hin | hin
      · rw [memcpy_inside hin,List.append_assoc,List.getElem?_append_right (by omega),hbefore,
          Nat.add_sub_cancel_left,List.getElem?_append_left (by omega),
          List.getElem?_take_of_lt hin,memOf_getElem? (by omega),Nat.zero_add]
      · have hpart : (o.buf.take o.fptr ++ data.take k).length = fp.fptr + k := by
          rw [List.length_append,hbefore,hlen]
        rw [memcpy_outside (by omega),List.getElem?_append_right (by omega),hpart,List.getElem?_drop,
          h.fptr,← h.bytes _ (by omega)]
        congr 1
        omega

/-- Moving is moving; the file shows some bytes in the gap. -/
theorem Represents.lseek (h : Represents g cs fp fs o) {ofs stop : ℕ}
    (hcovered : fp.objsize ≤ cs.length * g.bcs)
    (hstop : (if o.objsize < ofs ∧ o.flag &&& FA_WRITE = 0 then o.objsize else ofs) = stop)
    (hm : MovesTo g chains i cs n stop fp fs cs' n' fp' fs') :
    (UcVfs.fLseek ofs o).1 = .ok ∧ (UcVfs.fLseek ofs o).2.dirPtr = o.dirPtr ∧
      ∃ buf,buf.take o.objsize = o.buf.take o.objsize ∧
      Represents g cs' fp' fs' { (UcVfs.fLseek ofs o).2 with buf := buf } := by
  have hlength := h.length
  have hsize := hm.objsize
  have hle : fp.objsize ≤ fp'.objsize := hsize ▸ le_max_left _ _
  have hbytes : (bytesFrom (g.content cs' fp' fs') 0 fp'.objsize).take o.objsize =
      o.buf.take o.objsize := by
    refine List.ext_getElem? fun k => ?_
    rw [h.objsize]
    by_cases hk : k < fp.objsize
    · rw [List.getElem?_take_of_lt hk,List.getElem?_take_of_lt hk,bytesFrom_getElem? (by omega),
        Nat.zero_add,hm.content k (by omega),h.bytes k hk]
    · rw [List.getElem?_eq_none (by rw [List.length_take]; omega),
        List.getElem?_eq_none (by rw [List.length_take]; omega)]
  have hshown : ∀ k < fp'.objsize,(bytesFrom (g.content cs' fp' fs') 0 fp'.objsize)[k]? =
      some (g.content cs' fp' fs' k) := by
    intro k hk
    rw [bytesFrom_getElem? hk,Nat.zero_add]
  have hmode := hm.mode
  rw [← h.objsize] at hmode
  rw [UcVfs.fLseek]
  dsimp only
  rw [hstop]
  by_cases hgrow : o.objsize < stop
  · rw [if_pos hgrow] at hmode ⊢
    refine ⟨rfl,rfl,_,hbytes,hm.fptr.symm,?_,?_,hshown⟩
    · show stop = _
      rw [hsize,← h.objsize,max_eq_right hgrow.le]
    · show Fatfs.mode (o.flag ||| FA_MODIFIED) = _
      rw [mode_modified,hmode,h.mode]
  · rw [if_neg hgrow] at hmode ⊢
    refine ⟨rfl,rfl,_,hbytes,hm.fptr.symm,?_,h.mode.trans hmode.symm,hshown⟩
    show o.objsize = _
    rw [hsize,← h.objsize,max_eq_left (not_lt.mp hgrow)]

end Represents

/-! ### Files and their entries -/

/-- A sector that holds directory entries: in the root directory of a FAT12 or FAT16 volume or in the
chain of a directory, in any case not in the chain `i`. -/
def Home {ι : Type} (g : Geometry) (chains : ι → List ℕ) (i : ι) (sect : ℕ) : Prop :=
  sect < g.database ∨ ∃ k,k ≠ i ∧ g.Sectors (chains k) sect

/-- A file, open or not, with what its directory says. -/
inductive Stored {ι Name : Type} [DecidableEq ι] (v : MountedVolume) (d : DirPlace v.toGeometry)
    (chains : ι → List ℕ) (i : ι) (name : Name) (cs : List ℕ) (n : ℕ) (e : DirEntry) (fs : FATFS) :
    Option (Fil Mem) → Option (FilObj Name) → Prop
  | closed (filed : Filed v.toGeometry d.addr cs fs.view e) :
    Stored v d chains i name cs n e fs none none
  | opened {fp : Fil Mem} {o : FilObj Name} (live : Live v d chains i name cs n e fp fs o) :
    Stored v d chains i name cs n e fs (some fp) (some o)

/-- The file is open and has changed. -/
def Changed (st : Option (Fil Mem)) : Prop := ∃ fp,st = some fp ∧ AnyFlag fp.flag FA_MODIFIED

/-- What a call on a file does. -/
structure Performs {ι Name : Type} [DecidableEq ι] [DecidableEq Name] (v : MountedVolume)
    (d : DirPlace v.toGeometry) (chains : ι → List ℕ) (i : ι) (name : Name) (dir : RootDir Name)
    (op : FileOp) (cs : List ℕ) (n : ℕ) (fp : Fil Mem) (fs : FATFS) (o : FilObj Name) (out : Outcome)
    (cs' : List ℕ) (n' : ℕ) (e' : DirEntry) (st : Option (Fil Mem)) (fs' : FATFS)
    (o' : Option (FilObj Name)) : Prop where
  grown : Grown cs cs' n n'
  holds : Holds v.toGeometry chains i cs' n' fs'
  stored : Stored v d chains i name cs' n' e' fs' st o'
  serves : Serves n' dir o op out (Function.update dir name (some e')) o'
  aside : Aside v d cs' fs fs'
  quiet : fs'.wflag = true → Changed st ∨ fs.wflag = true ∧ ¬AnyFlag fp.flag FA_MODIFIED

section Perform

variable {ι Name : Type} [DecidableEq ι] [DecidableEq Name] {v : MountedVolume}
  {validate : Fil Mem → FATFS → FResult} {d : DirPlace v.toGeometry} {chains : ι → List ℕ} {i : ι}
  {name : Name} {dir : RootDir Name} {cs cs' : List ℕ} {n n' : ℕ} {e : DirEntry} {fp fp' : Fil Mem}
  {fs fs' : FATFS} {o o' : FilObj Name}

omit [DecidableEq ι] in
/-- No sector belongs to two chains. -/
theorem Allocated.sector {g : Geometry} {fs : FATFS} (h : Allocated g chains fs) {i j : ι} {sect : ℕ}
    (hi : g.Sectors (chains i) sect) (hj : g.Sectors (chains j) sect) : i = j := by
  obtain ⟨c,hc,k,hk,rfl⟩ := hi
  obtain ⟨c',hc',k',hk',he⟩ := hj
  have hvalid := h.all.valid hc
  have hvalid' := h.all.valid hc'
  obtain ⟨rfl,_⟩ := cluster_of_sector hvalid.1 hvalid.2 hvalid'.1 hvalid'.2 hk hk' he
  exact h.all.apart hc hc'

/-- The entries are in no sector of the file. -/
theorem Home.away {g : Geometry} {sect : ℕ} (hd : Home g chains i sect) (h : Holds g chains i cs n fs) :
    ¬g.Sectors cs sect := by
  intro hsect
  rcases hd with hroot | ⟨k,hk,hdir⟩
  · have hdata := (h.sectors hsect).1
    omega
  · have hi : g.Sectors (Function.update chains i cs i) sect := by rwa [Function.update_self]
    have hk' : g.Sectors (Function.update chains i cs k) sect := by rwa [Function.update_of_ne hk]
    exact hk (h.alloc.sector hk' hi)

/-- The room that is left when a file ends where the last cluster does. -/
theorem Grown.full {g : Geometry} (h : Grown cs cs' n n')
    (hend : (cs.length + n) * g.bcs ≤ cs'.length * g.bcs) : n' = 0 := by
  have hle := Nat.le_of_mul_le_mul_right hend (gbcs_pos g)
  have hroom := h.room
  omega

omit [DecidableEq Name] in
/-- A file after its data was read or written, with its entry as it was. -/
theorem Live.moved (h : Live v d chains i name cs n e fp fs o) (hhome : Home v.toGeometry chains i d.sect)
    (hopened : Opened v.toGeometry chains i cs' n' fp' fs')
    (hrep : Represents v.toGeometry cs' fp' fs' o') (hptr : o'.dirPtr = o.dirPtr)
    (hbeside : Beside v.toGeometry cs' fs fs')
    (hsame : ¬AnyFlag fp'.flag FA_MODIFIED → ¬AnyFlag fp.flag FA_MODIFIED ∧ cs' = cs ∧
      (AnyFlag fp'.flag FA_DIRTY → AnyFlag fp.flag FA_DIRTY) ∧
      ∀ k < cs.length * v.bcs,v.content cs fp' fs' k = v.content cs fp fs k) :
    Live v d chains i name cs' n' e fp' fs' o' := by
  have haway := hhome.away hopened.holds
  have hentry : ∀ k < 32,fs'.view (d.addr + k) = fs.view (d.addr + k) := by
    intro k hk
    obtain ⟨hsect,hdisk,hfats,_⟩ := dir_behind d hk
    exact hbeside.view _ hdisk hfats (by rwa [hsect])
  refine ⟨hopened,hrep,hptr.trans h.dirPtr,?_,fun hclean => ?_⟩
  · rw [hentry 11 (by decide)]
    exact h.attr
  · obtain ⟨hclean₁,rfl,hdirty,hcontent⟩ := hsame hclean
    obtain ⟨hdry,hfiled⟩ := h.filed hclean₁
    have hdry' : ¬AnyFlag fp'.flag FA_DIRTY := fun hd => hdry (hdirty hd)
    refine ⟨hdry',⟨by rw [hentry 11 (by decide)]; exact hfiled.attr,
      (ldClust_congr hentry).trans hfiled.sclust,(loadEntry_congr hentry (by decide)).trans hfiled.fileSize,
      hfiled.covered,fun k hk => ?_⟩⟩
    have hin := hk.trans_le hfiled.covered
    have hshown := hcontent k hin
    rw [Geometry.content,Geometry.content,Fil.shown_clean hdry,Fil.shown_clean hdry'] at hshown
    rw [hshown]
    exact hfiled.bytes k hk

/-- A call that reads, writes or moves, by what it does to the data. -/
theorem Live.performs {op : FileOp} {out : Outcome} (h : Live v d chains i name cs' n' e fp' fs' o')
    (hdir : dir name = some e) (hgrown : Grown cs cs' n n')
    (hserves : Serves n' dir o op out dir (some o')) (hbeside : Beside v.toGeometry cs' fs fs')
    (hquiet : AnyFlag fp'.flag FA_MODIFIED ∨
      (fs'.wflag = true → fs.wflag = true) ∧ ¬AnyFlag fp.flag FA_MODIFIED) :
    Performs v d chains i name dir op cs n fp fs o out cs' n' e (some fp') fs' (some o') := by
  refine ⟨hgrown,h.holds,.opened h,?_,hbeside.aside d,fun hdirty => ?_⟩
  · rwa [← hdir,Function.update_eq_self]
  · rcases hquiet with hchanged | ⟨hquiet,hclean⟩
    · exact Or.inl ⟨fp',rfl,hchanged⟩
    · exact Or.inr ⟨hquiet hdirty,hclean⟩

theorem Live.performRead (h : Live v d chains i name cs n e fp fs o) (hvalid : validate fp fs = .ok)
    (hdir : dir name = some e) (hhome : Home v.toGeometry chains i d.sect) (btr : ℕ) (rbuff : Mem) :
    ∃ out cs' n' e' st fs' o',perform v validate d (.fRead btr rbuff) fp fs = (out,st,fs') ∧
      Performs v d chains i name dir (.fRead btr rbuff) cs n fp fs o out cs' n' e' st fs' o' := by
  have hok := h.check hvalid
  have haccess : o.flag &&& FA_READ = fp.flag &&& FA_READ := h.represents.granted rfl
  have hserves : Serves n dir o (FileOp.fRead btr rbuff) _ dir _ := .fRead
  by_cases hread : fp.flag &&& FA_READ = 0
  · rw [UcVfs.fRead,if_pos (haccess.trans hread)] at hserves
    refine ⟨⟨.denied,[],0⟩,cs,n,e,some fp,fs,some o,?_,h.performs hdir (.refl cs n) hserves
      (.refl _ cs fs) (or_iff_not_imp_left.mpr fun hclean => ⟨fun h => h,hclean⟩)⟩
    simp only [perform,FATFS.fRead,hok,hread]
    rfl
  · obtain ⟨rbuff',fp',fs',hcall,hg⟩ := h.toOpened.fRead hok hread btr rbuff
    obtain ⟨hserve,hrep⟩ := h.represents.read (by rwa [haccess]) h.within h.covered hg
    rw [hserve] at hserves
    have hmode := modified_congr hg.mode
    have hlive := h.moved hhome hg.opened hrep rfl hg.beside fun hclean =>
      ⟨fun hm => hclean (hmode.mpr hm),rfl,hg.dirty,hg.content⟩
    refine ⟨⟨.ok,bytesFrom rbuff' 0 (min btr (fp.objsize - fp.fptr)),0⟩,cs,n,e,some fp',fs',_,?_,
      hlive.performs hdir (.refl cs n) hserves hg.beside ?_⟩
    · simp only [perform,hcall]
    · exact or_iff_not_imp_left.mpr fun hclean => ⟨hg.quiet,fun hm => hclean (hmode.mpr hm)⟩

theorem Live.performWrite (h : Live v d chains i name cs n e fp fs o) (hvalid : validate fp fs = .ok)
    (hdir : dir name = some e) (hhome : Home v.toGeometry chains i d.sect) (data : List UInt8) :
    ∃ out cs' n' e' st fs' o',perform v validate d (.fWrite data) fp fs = (out,st,fs') ∧
      Performs v d chains i name dir (.fWrite data) cs n fp fs o out cs' n' e' st fs' o' := by
  have hok := h.check hvalid
  have haccess : o.flag &&& FA_WRITE = fp.flag &&& FA_WRITE := h.represents.granted rfl
  by_cases hwrite : fp.flag &&& FA_WRITE = 0
  · have hdenied := haccess.trans hwrite
    have hserves : Serves n dir o (FileOp.fWrite data) _ dir _ :=
      .fWrite (Nat.zero_le _) fun _ => Or.inr hdenied
    rw [UcVfs.fWrite,if_pos hdenied] at hserves
    refine ⟨⟨.denied,[],0⟩,cs,n,e,some fp,fs,some o,?_,h.performs hdir (.refl cs n) hserves
      (.refl _ cs fs) (or_iff_not_imp_left.mpr fun hclean => ⟨fun h => h,hclean⟩)⟩
    simp only [perform,FATFS.fWrite,hok,hwrite]
    rfl
  · obtain ⟨cs',n',fp',fs',hcall,ht⟩ := h.toOpened.fWrite hok hwrite data.length (memOf data)
    obtain ⟨o',hserve,hrep,hptr⟩ :=
      h.represents.write (by rwa [haccess]) (min_le_left _ _) h.within ht
    have hwithin := h.within.trans h.covered
    have hroom : cs.length * v.bcs ≤ (cs.length + n) * v.bcs :=
      Nat.mul_le_mul_right _ (Nat.le_add_right _ _)
    -- a short count means that the file ends where the disk does
    have hshort : min data.length ((cs.length + n) * v.bcs - fp.fptr) < data.length →
        n' = 0 ∨ o.flag &&& FA_WRITE = 0 := by
      intro hlt
      have hptr := ht.fptr
      have hend := ht.opened.within.trans ht.opened.covered
      exact Or.inl (ht.grown.full (g := v.toGeometry) (by omega))
    have hserves : Serves n' dir o (FileOp.fWrite data) _ dir _ := .fWrite (min_le_left _ _) hshort
    rw [hserve] at hserves
    have hchanged := modified_changed ht.mode
    have hlive := h.moved hhome ht.opened hrep hptr ht.beside fun hclean => absurd hchanged hclean
    refine ⟨_,cs',n',e,some fp',fs',some o',?_,hlive.performs hdir ht.grown hserves ht.beside
      (Or.inl hchanged)⟩
    simp only [perform,hcall]

theorem Live.performLseek (h : Live v d chains i name cs n e fp fs o) (hvalid : validate fp fs = .ok)
    (hdir : dir name = some e) (hhome : Home v.toGeometry chains i d.sect) (ofs : ℕ) :
    ∃ out cs' n' e' st fs' o',perform v validate d (.fLseek ofs) fp fs = (out,st,fs') ∧
      Performs v d chains i name dir (.fLseek ofs) cs n fp fs o out cs' n' e' st fs' o' := by
  have hok := h.check hvalid
  have hobjsize := h.represents.objsize
  have haccess : o.flag &&& FA_WRITE = fp.flag &&& FA_WRITE := h.represents.granted rfl
  obtain ⟨cs',n',fp',fs',hcall,hm⟩ := h.toOpened.fLseek hok ofs
  -- in read-only mode the object clips the offset by itself
  obtain ⟨ofs',hle,hshort,hstop⟩ : ∃ ofs' ≤ ofs,(ofs' < ofs → n' = 0) ∧
      (if o.objsize < ofs' ∧ o.flag &&& FA_WRITE = 0 then o.objsize else ofs') =
        min ofs ((v.volume validate).limit fp cs n) := by
    rw [FatVolume.limit,haccess,hobjsize]
    by_cases hwrite : fp.flag &&& FA_WRITE = 0
    · refine ⟨ofs,le_rfl,fun hlt => absurd hlt (lt_irrefl _),?_⟩
      rw [if_pos hwrite]
      by_cases hclip : fp.objsize < ofs
      · rw [if_pos ⟨hclip,hwrite⟩,min_eq_right hclip.le]
      · rw [if_neg fun hd => hclip hd.1,min_eq_left (not_lt.mp hclip)]
    · rw [if_neg hwrite]
      refine ⟨_,min_le_left _ _,fun hlt => ?_,if_neg fun hd => hwrite hd.2⟩
      have hptr := hm.fptr
      rw [FatVolume.limit,if_neg hwrite] at hptr
      have hend := hm.opened.within.trans hm.opened.covered
      have hroom : (cs.length + n) * (v.volume validate).bcs = (cs.length + n) * v.bcs := rfl
      exact hm.grown.full (g := v.toGeometry) (by omega)
  obtain ⟨hres,hptr,buf,hbuf,hrep⟩ := h.represents.lseek h.covered hstop hm
  have hserves : Serves n' dir o (FileOp.fLseek ofs) _ dir _ := .fLseek hle hshort hbuf
  rw [hres] at hserves
  have hmode := hm.mode
  have hcovered : fp.objsize ≤ cs.length * v.bcs := h.covered
  -- a file that did not grow is where it was
  have hsame : ¬AnyFlag fp'.flag FA_MODIFIED → ¬AnyFlag fp.flag FA_MODIFIED ∧ cs' = cs ∧
      (fs'.wflag = true → fs.wflag = true) := by
    intro hclean
    by_cases hgrow : fp.objsize < min ofs ((v.volume validate).limit fp cs n)
    · rw [if_pos hgrow] at hmode
      exact absurd (modified_changed hmode) hclean
    · rw [if_neg hgrow] at hmode
      obtain ⟨hcs,hquiet⟩ := hm.short (by omega)
      exact ⟨fun hmod => hclean ((modified_congr hmode).mpr hmod),hcs,hquiet⟩
  have hlive := h.moved hhome hm.opened hrep hptr hm.beside fun hclean => by
    obtain ⟨hclean₁,rfl,_⟩ := hsame hclean
    exact ⟨hclean₁,rfl,hm.dirty,hm.content⟩
  refine ⟨_,cs',n',e,some fp',fs',_,?_,hlive.performs hdir hm.grown hserves hm.beside ?_⟩
  · simp only [perform,hcall]
  · exact or_iff_not_imp_left.mpr fun hclean => ⟨(hsame hclean).2.2,(hsame hclean).1⟩

theorem mode_clean {w : ℕ} (hclean : ¬AnyFlag w FA_MODIFIED) : mode w = access w := by
  rw [AnyFlag,not_not] at hclean
  rw [mode,Nat.and_or_distrib_left,hclean,access]
  exact Nat.or_zero _

/-- What `f_sync` does to a file, to its directory and to the volume. -/
structure Syncs (v : MountedVolume) (d : DirPlace v.toGeometry) (chains : ι → List ℕ) (i : ι)
    (name : Name) (dir : RootDir Name) (cs : List ℕ) (n : ℕ) (fp : Fil Mem) (fs : FATFS)
    (o : FilObj Name) (e' : DirEntry) (fp' : Fil Mem) (fs' : FATFS) (o' : FilObj Name) : Prop where
  live : Live v d chains i name cs n e' fp' fs' o'
  clean : ¬AnyFlag fp'.flag FA_MODIFIED
  dir : UcVfs.fSync o dir = ((.ok,o'),Function.update dir name (some e'))
  aside : Aside v d cs fs fs'
  quiet : fs'.wflag = true → fs.wflag = true ∧ ¬AnyFlag fp.flag FA_MODIFIED

theorem Live.fSync (h : Live v d chains i name cs n e fp fs o) (hvalid : validate fp fs = .ok)
    (hdir : dir name = some e) (hhome : Home v.toGeometry chains i d.sect) :
    ∃ e' fp' fs' o',FATFS.fSync v validate d fp fs = (.ok,fp',fs') ∧
      Syncs v d chains i name dir cs n fp fs o e' fp' fs' o' := by
  have haccess : o.flag &&& FA_MODIFIED = fp.flag &&& FA_MODIFIED := h.represents.granted rfl
  by_cases hmodified : fp.flag &&& FA_MODIFIED = 0
  · refine ⟨e,fp,fs,o,?_,h,not_not.mpr hmodified,?_,(Beside.refl _ cs fs).aside d,
      fun hdirty => ⟨hdirty,not_not.mpr hmodified⟩⟩
    · simp only [FATFS.fSync,hvalid,if_true,hmodified,ne_eq,not_true_eq_false,if_false]
    · simp only [UcVfs.fSync,h.dirPtr,haccess,hmodified]
      rw [← hdir,Function.update_eq_self]
      rfl
  · obtain ⟨flag,fs',hcall,hs⟩ := h.toOpened.fSync hvalid hmodified (hhome.away h.holds)
    have hcovered : fp.objsize ≤ cs.length * v.bcs := h.covered
    have hobjsize := h.represents.objsize
    have hbytes : ∀ k < fp.objsize,o.buf[k]? = some (fs'.view (v.place cs k)) := by
      intro k hk
      have hshown := hs.content k (hk.trans_le hcovered)
      rw [Geometry.content,Fil.shown_clean hs.written] at hshown
      rw [hshown]
      exact h.represents.bytes k hk
    have hfiled : Filed v.toGeometry d.addr cs fs'.view ⟨e.attr ||| AM_ARC,o.objsize,o.buf⟩ := by
      refine ⟨?_,hs.recorded.sclust.trans h.sclust,hs.recorded.objsize.trans hobjsize.symm,
        hobjsize.trans_le hcovered,fun k hk => hbytes k (hk.trans_eq hobjsize)⟩
      rw [hs.attr,Nat.and_or_distrib_right,← h.attr]
      rfl
    refine ⟨⟨e.attr ||| AM_ARC,o.objsize,o.buf⟩,_,fs',{ o with flag := o.flag &&& (0xFF ^^^ FA_MODIFIED) },
      hcall,⟨hs.opened,⟨h.represents.fptr,hobjsize,?_,fun k hk => ?_⟩,h.dirPtr,hfiled.attr,
        fun _ => ⟨hs.written,hfiled⟩⟩,hs.saved,?_,⟨hs.view,hs.mirrored,Or.inr (Or.inr hs.window)⟩,
      fun hdirty => absurd (hs.clean.symm.trans hdirty) Bool.false_ne_true⟩
    · refine (mode_clean (notModified _)).trans (Eq.trans ?_ (mode_clean hs.saved).symm)
      rw [access_saved,hs.access]
      exact access_congr h.represents.mode
    · rw [Geometry.content,Fil.shown_clean hs.written]
      exact hbytes k hk
    · have hchanged : ¬o.flag &&& FA_MODIFIED = 0 := by rwa [haccess]
      simp only [UcVfs.fSync,h.dirPtr,hdir,Option.getD_some]
      exact if_pos hchanged

theorem Live.performSync (h : Live v d chains i name cs n e fp fs o) (hvalid : validate fp fs = .ok)
    (hdir : dir name = some e) (hhome : Home v.toGeometry chains i d.sect) :
    ∃ out cs' n' e' st fs' o',perform v validate d .fSync fp fs = (out,st,fs') ∧
      Performs v d chains i name dir .fSync cs n fp fs o out cs' n' e' st fs' o' := by
  obtain ⟨e',fp',fs',o',hcall,hs⟩ := h.fSync hvalid hdir hhome
  have hserves : Serves n dir o FileOp.fSync _ _ _ := .fSync
  rw [hs.dir] at hserves
  refine ⟨⟨.ok,[],0⟩,cs,n,e',some fp',fs',some o',?_,.refl cs n,hs.live.holds,.opened hs.live,hserves,
    hs.aside,fun hdirty => Or.inr (hs.quiet hdirty)⟩
  simp only [perform,hcall]

theorem Live.performClose (h : Live v d chains i name cs n e fp fs o)
    (hvalid : ∀ fp fs,validate fp fs = .ok) (hdir : dir name = some e)
    (hhome : Home v.toGeometry chains i d.sect) :
    ∃ out cs' n' e' st fs' o',perform v validate d .fClose fp fs = (out,st,fs') ∧
      Performs v d chains i name dir .fClose cs n fp fs o out cs' n' e' st fs' o' := by
  obtain ⟨e',fp',fs',o',hcall,hs⟩ := h.fSync (hvalid fp fs) hdir hhome
  have hclose : UcVfs.fClose o dir =
      ((.ok,{ o' with dirPtr := none }),Function.update dir name (some e')) := by
    simp only [UcVfs.fClose,hs.dir,if_true]
  have hserves : Serves n dir o FileOp.fClose _ _ _ := .fClose (by rw [hclose])
  rw [hclose] at hserves
  refine ⟨⟨.ok,[],0⟩,cs,n,e',none,fs',none,?_,.refl cs n,hs.live.holds,.closed (hs.live.filed hs.clean).2,
    hserves,hs.aside,fun hdirty => Or.inr (hs.quiet hdirty)⟩
  simp only [perform,FATFS.fClose,hcall,hvalid,if_true]

/-- Every call on an open file serves it. -/
theorem Live.perform (h : Live v d chains i name cs n e fp fs o)
    (hvalid : ∀ fp fs,validate fp fs = .ok) (hdir : dir name = some e)
    (hhome : Home v.toGeometry chains i d.sect) (op : FileOp) :
    ∃ out cs' n' e' st fs' o',Fatfs.perform v validate d op fp fs = (out,st,fs') ∧
      Performs v d chains i name dir op cs n fp fs o out cs' n' e' st fs' o' := by
  cases op with
  | fRead btr rbuff => exact h.performRead (hvalid fp fs) hdir hhome btr rbuff
  | fWrite data => exact h.performWrite (hvalid fp fs) hdir hhome data
  | fLseek ofs => exact h.performLseek (hvalid fp fs) hdir hhome ofs
  | fSync => exact h.performSync (hvalid fp fs) hdir hhome
  | fClose => exact h.performClose hvalid hdir hhome

end Perform

end UcVfs.Fatfs
