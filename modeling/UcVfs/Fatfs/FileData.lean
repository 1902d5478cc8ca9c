import UcVfs.Fatfs.DataArea

/-!
# The data of a file

`f_read` and `f_write` of `ff.c`, over the chain of the file, the sector buffer of the file object
and the disk. A file is the bytes that lie one behind the other in its clusters, those of the buffer
in place of what is on the disk: reading gives them, and writing replaces them and no others.
-/

namespace UcVfs.Fatfs

open Framework

namespace FATFS

variable (g : Geometry) (validate : Fil Mem → FATFS → FResult)

/-- The sector of the pointer in its cluster. -/
def csect (fp : Fil Mem) : ℕ := fp.fptr / SS &&& (g.csize - 1)

/-- Writes the sector buffer back. -/
def flushBuf (fp : Fil Mem) (fs : FATFS) : Except FResult Unit × Fil Mem × FATFS :=
  if fp.flag &&& FA_DIRTY ≠ 0 then
    match fs.write fp.buf fp.sect 1 with
    | (.ok,fs) => (.ok (),{ fp with flag := fp.flag &&& (0xFF ^^^ FA_DIRTY) },fs)
    | (.error,fs) => (.error .diskErr,fp,fs)
  else (.ok (),fp,fs)

/-- On the cluster boundary a read goes to the next cluster. -/
def readCluster (fp : Fil Mem) (fs : FATFS) : Except FResult Unit × Fil Mem × FATFS :=
  if csect g fp = 0 then
    let (clst,fs) := if fp.fptr = 0 then (fp.sclust,fs) else fs.getFat g fp.clust
    if clst < 2 then (.error .intErr,fp,fs)
    else if clst = 0xFFFFFFFF then (.error .diskErr,fp,fs)
    else (.ok (),{ fp with clust := clst },fs)
  else (.ok (),fp,fs)

/-- Loads a sector into the buffer, if it is not there. -/
def loadSector (sect : ℕ) (fp : Fil Mem) (fs : FATFS) : Except FResult Unit × Fil Mem × FATFS :=
  if fp.sect ≠ sect then
    match flushBuf fp fs with
    | (.error res,fp,fs) => (.error res,fp,fs)
    | (.ok _,fp,fs) =>
      match fs.read fp.buf sect 1 with
      | (.error,buf) => (.error .diskErr,{ fp with buf := buf },fs)
      | (.ok,buf) => (.ok (),{ fp with buf := buf, sect := sect },fs)
  else (.ok (),{ fp with sect := sect },fs)

/-- The bytes of the buffer from the pointer on. -/
def copyOut (btr pos : ℕ) (rbuff : Mem) (fp : Fil Mem) : ℕ × Mem :=
  let rcnt := SS - fp.fptr % SS
  let rcnt := if rcnt > btr then btr else rcnt
  (rcnt,memcpy rbuff pos fp.buf (fp.fptr % SS) rcnt)

/-- One round of the loop of `f_read`: how many bytes it transferred. -/
def readRound (btr pos : ℕ) (rbuff : Mem) (fp : Fil Mem) (fs : FATFS) :
    Except FResult (ℕ × Mem) × Fil Mem × FATFS :=
  if fp.fptr % SS = 0 then
    match readCluster g fp fs with
    | (.error res,fp,fs) => (.error res,fp,fs)
    | (.ok _,fp,fs) =>
      let sect := g.clst2sect fp.clust
      if sect = 0 then (.error .intErr,fp,fs)
      else
        let sect := sect + csect g fp
        let cc := btr / SS
        if cc > 0 then
          let cc := if csect g fp + cc > g.csize then g.csize - csect g fp else cc
          match fs.read (fun a => rbuff (pos + a)) sect cc with
          | (.error,_) => (.error .diskErr,fp,fs)
          | (.ok,data) =>
            let rbuff := memcpy rbuff pos data 0 (cc * SS)
            -- one of the sectors may be newer in the buffer
            let rbuff := if fp.flag &&& FA_DIRTY ≠ 0 ∧ sect ≤ fp.sect ∧ fp.sect - sect < cc then
                memcpy rbuff (pos + (fp.sect - sect) * SS) fp.buf 0 SS
              else rbuff
            (.ok (SS * cc,rbuff),fp,fs)
        else
          match loadSector sect fp fs with
          | (.error res,fp,fs) => (.error res,fp,fs)
          | (.ok _,fp,fs) => (.ok (copyOut btr pos rbuff fp),fp,fs)
  else (.ok (copyOut btr pos rbuff fp),fp,fs)

/-- The loop of `f_read`. Every round transfers something, so there are no more rounds than bytes. -/
def readLoop : ℕ → ℕ → ℕ → Mem → Fil Mem → FATFS → (FResult × ℕ × Mem) × Fil Mem × FATFS
  | 0,_,br,rbuff,fp,fs => ((.ok,br,rbuff),fp,fs)
  | fuel + 1,btr,br,rbuff,fp,fs =>
    if btr > 0 then
      match readRound g btr br rbuff fp fs with
      | (.error res,fp,fs) => ((res,br,rbuff),{ fp with err := res },fs)
      | (.ok (rcnt,rbuff),fp,fs) =>
        readLoop fuel (btr - rcnt) (br + rcnt) rbuff { fp with fptr := fp.fptr + rcnt } fs
    else ((.ok,br,rbuff),fp,fs)

def fRead (btr : ℕ) (rbuff : Mem) (fp : Fil Mem) (fs : FATFS) :
    (FResult × ℕ × Mem) × Fil Mem × FATFS :=
  let res := (g.volume validate).check fp fs
  if res ≠ .ok then ((res,0,rbuff),fp,fs)
  else if fp.flag &&& FA_READ = 0 then ((.denied,0,rbuff),fp,fs)
  else
    let remain := (fp.objsize + 2 ^ 32 - fp.fptr) % 2 ^ 32
    let btr := if btr > remain then remain else btr
    readLoop g btr btr 0 rbuff fp fs

/-- On the cluster boundary a write goes to the next cluster, which may be a new one. There is none
when the disk is full. -/
def writeCluster (fp : Fil Mem) (fs : FATFS) : Except FResult Bool × Fil Mem × FATFS :=
  if csect g fp = 0 then
    let (clst,fs) :=
      if fp.fptr = 0 then
        if fp.sclust = 0 then (g.volume validate).createChain 0 fs else (fp.sclust,fs)
      else (g.volume validate).createChain fp.clust fs
    if clst = 0 then (.ok false,fp,fs)
    else if clst = 1 then (.error .intErr,fp,fs)
    else if clst = 0xFFFFFFFF then (.error .diskErr,fp,fs)
    else
      (.ok true,{ fp with clust := clst, sclust := if fp.sclust = 0 then clst else fp.sclust },fs)
  else (.ok true,fp,fs)

/-- Fits bytes into the buffer from the pointer on. -/
def copyIn (btw pos : ℕ) (wbuff : Mem) (fp : Fil Mem) : ℕ × Fil Mem :=
  let wcnt := SS - fp.fptr % SS
  let wcnt := if wcnt > btw then btw else wcnt
  (wcnt,{ fp with buf := memcpy fp.buf (fp.fptr % SS) wbuff pos wcnt, flag := fp.flag ||| FA_DIRTY })

/-- One round of the loop of `f_write`: how many bytes it transferred, or none when the disk is
full. -/
def writeRound (btw pos : ℕ) (wbuff : Mem) (fp : Fil Mem) (fs : FATFS) :
    Except FResult (Option ℕ) × Fil Mem × FATFS :=
  if fp.fptr % SS = 0 then
    match writeCluster g validate fp fs with
    | (.error res,fp,fs) => (.error res,fp,fs)
    | (.ok false,fp,fs) => (.ok none,fp,fs)
    | (.ok true,fp,fs) =>
      match flushBuf fp fs with
      | (.error res,fp,fs) => (.error res,fp,fs)
      | (.ok _,fp,fs) =>
        let sect := g.clst2sect fp.clust
        if sect = 0 then (.error .intErr,fp,fs)
        else
          let sect := sect + csect g fp
          let cc := btw / SS
          if cc > 0 then
            let cc := if csect g fp + cc > g.csize then g.csize - csect g fp else cc
            match fs.write (fun a => wbuff (pos + a)) sect cc with
            | (.error,fs) => (.error .diskErr,fp,fs)
            | (.ok,fs) =>
              -- the buffer may hold one of the sectors
              let fp := if sect ≤ fp.sect ∧ fp.sect - sect < cc then
                  { fp with
                    buf := memcpy fp.buf 0 wbuff (pos + (fp.sect - sect) * SS) SS
                    flag := fp.flag &&& (0xFF ^^^ FA_DIRTY) }
                else fp
              (.ok (some (SS * cc)),fp,fs)
          else
            -- on the growing edge there is nothing to load
            let (res,buf) := if fp.sect ≠ sect ∧ fp.fptr < fp.objsize then fs.read fp.buf sect 1
              else (.ok,fp.buf)
            match res with
            | .error => (.error .diskErr,{ fp with buf := buf },fs)
            | .ok =>
              let (wcnt,fp) := copyIn btw pos wbuff { fp with buf := buf, sect := sect }
              (.ok (some wcnt),fp,fs)
  else
    let (wcnt,fp) := copyIn btw pos wbuff fp
    (.ok (some wcnt),fp,fs)

/-- The loop of `f_write`. -/
def writeLoop : ℕ → ℕ → ℕ → Mem → Fil Mem → FATFS → (FResult × ℕ) × Fil Mem × FATFS
  | 0,_,bw,_,fp,fs => ((.ok,bw),{ fp with flag := fp.flag ||| FA_MODIFIED },fs)
  | fuel + 1,btw,bw,wbuff,fp,fs =>
    if btw > 0 then
      match writeRound g validate btw bw wbuff fp fs with
      | (.error res,fp,fs) => ((res,bw),{ fp with err := res },fs)
      | (.ok none,fp,fs) => ((.ok,bw),{ fp with flag := fp.flag ||| FA_MODIFIED },fs)
      | (.ok (some wcnt),fp,fs) =>
        let fptr := fp.fptr + wcnt
        writeLoop fuel (btw - wcnt) (bw + wcnt) wbuff
          { fp with fptr := fptr, objsize := if fptr > fp.objsize then fptr else fp.objsize } fs
    else ((.ok,bw),{ fp with flag := fp.flag ||| FA_MODIFIED },fs)

def fWrite (btw : ℕ) (wbuff : Mem) (fp : Fil Mem) (fs : FATFS) :
    (FResult × ℕ) × Fil Mem × FATFS :=
  let res := (g.volume validate).check fp fs
  if res ≠ .ok then ((res,0),fp,fs)
  else if fp.flag &&& FA_WRITE = 0 then ((.denied,0),fp,fs)
  else
    -- the size of a file is a number of 32 bits
    let btw := if (fp.fptr + btw) % 2 ^ 32 < fp.fptr then 0xFFFFFFFF - fp.fptr else btw
    writeLoop g validate btw btw 0 wbuff fp fs

end FATFS

/-! ### Where the bytes of a file are -/

/-- The size of a cluster in bytes. -/
def Geometry.bcs (g : Geometry) : ℕ := g.csize * SS

/-- Where the byte at an offset in a file with these clusters is on the disk. -/
def Geometry.place (g : Geometry) (cs : List ℕ) (o : ℕ) : ℕ :=
  g.clst2sect (cs.getD (o / g.bcs) 0) * SS + o % g.bcs

/-- The bytes that the file object shows: what is on the disk, and in the place of one sector what
is in the buffer, when that has to be written back. -/
def Fil.shown (fp : Fil Mem) (m : Mem) : Mem := fun a =>
  if AnyFlag fp.flag FA_DIRTY ∧ a / SS = fp.sect then fp.buf (a % SS) else m a

section Place

variable {g : Geometry} {cs : List ℕ} {c o j : ℕ}

theorem gbcs_pos (g : Geometry) : 0 < g.bcs := Nat.mul_pos (csize_pos g) SS_pos

theorem place_eq (hc : cs[o / g.bcs]? = some c) : g.place cs o = g.clst2sect c * SS + o % g.bcs := by
  rw [Geometry.place,List.getD_eq_getElem?_getD,hc,Option.getD_some]

theorem place_mod (o : ℕ) : g.place cs o % SS = o % SS := by
  rw [Geometry.place,Nat.mul_add_mod',Geometry.bcs,Nat.mod_mod_of_dvd _ (Nat.dvd_mul_left _ _)]

theorem place_div (hc : cs[o / g.bcs]? = some c) :
    g.place cs o / SS = g.clst2sect c + o % g.bcs / SS := by
  rw [place_eq hc,Nat.mul_comm,Nat.mul_add_div SS_pos]

/-- The sector of an offset in its cluster. -/
theorem csect_eq (g : Geometry) (o : ℕ) : o / SS &&& (g.csize - 1) = o % g.bcs / SS := by
  rw [Geometry.csize,Nat.and_two_pow_sub_one_eq_mod,Geometry.bcs,Geometry.csize,
    Nat.mod_mul_left_div_self]

theorem csect_lt (g : Geometry) (o : ℕ) : o % g.bcs / SS < g.csize := by
  rw [Geometry.bcs,Nat.mod_mul_left_div_self]
  exact Nat.mod_lt _ (csize_pos g)

/-- The cluster of an offset. -/
theorem cluster_at (ho : o < cs.length * g.bcs) : ∃ c ∈ cs,cs[o / g.bcs]? = some c := by
  have hlt : o / g.bcs < cs.length := Nat.div_lt_of_lt_mul (by rwa [Nat.mul_comm])
  exact ⟨cs[o / g.bcs],List.getElem_mem hlt,List.getElem?_eq_getElem hlt⟩

theorem sectors_place (ho : o < cs.length * g.bcs) : g.Sectors cs (g.place cs o / SS) := by
  obtain ⟨c,hc,hat⟩ := cluster_at ho
  exact ⟨c,hc,_,csect_lt g o,place_div hat⟩

/-- In a cluster the bytes lie one behind the other. -/
theorem place_add (hj : o % g.bcs + j < g.bcs) : g.place cs (o + j) = g.place cs o + j := by
  have hsplit : o + j = g.bcs * (o / g.bcs) + (o % g.bcs + j) := by
    have hdiv := Nat.div_add_mod o g.bcs
    omega
  have hdiv : (o + j) / g.bcs = o / g.bcs := by
    rw [hsplit,Nat.mul_add_div (gbcs_pos g),Nat.div_eq_of_lt hj,Nat.add_zero]
  have hmod : (o + j) % g.bcs = o % g.bcs + j := by
    rw [hsplit,Nat.mul_add_mod,Nat.mod_eq_of_lt hj]
  rw [Geometry.place,Geometry.place,hdiv,hmod,Nat.add_assoc]

/-- Two bytes of a file are at two places. -/
theorem place_inj {o' : ℕ} (hvalid : ∀ c ∈ cs,2 ≤ c ∧ c < g.nFatent) (hnodup : cs.Nodup)
    (ho : o < cs.length * g.bcs) (ho' : o' < cs.length * g.bcs)
    (he : g.place cs o = g.place cs o') : o = o' := by
  obtain ⟨c,hc,hat⟩ := cluster_at ho
  obtain ⟨c',hc',hat'⟩ := cluster_at ho'
  have hsect := congrArg (· / SS) he
  simp only [place_div hat,place_div hat'] at hsect
  obtain ⟨rfl,_⟩ := cluster_of_sector (hvalid c hc).1 (hvalid c hc).2 (hvalid c' hc').1
    (hvalid c' hc').2 (csect_lt g o) (csect_lt g o') hsect
  -- the same cluster, so the same number of it
  have hdiv : o / g.bcs = o' / g.bcs := by
    obtain ⟨hlt,hget⟩ := List.getElem?_eq_some_iff.mp hat
    obtain ⟨hlt',hget'⟩ := List.getElem?_eq_some_iff.mp hat'
    exact (List.Nodup.getElem_inj_iff hnodup).mp (hget.trans hget'.symm)
  rw [place_eq hat,place_eq hat'] at he
  have hmod : o % g.bcs = o' % g.bcs := Nat.add_left_cancel he
  rw [← Nat.div_add_mod o g.bcs,← Nat.div_add_mod o' g.bcs,hdiv,hmod]

/-- A longer chain has the same places, and more. -/
theorem place_longer {cs' : List ℕ} (hle : cs <+: cs') (ho : o < cs.length * g.bcs) :
    g.place cs' o = g.place cs o := by
  obtain ⟨c,_,hat⟩ := cluster_at ho
  obtain ⟨l,rfl⟩ := hle
  have hlt := (List.getElem?_eq_some_iff.mp hat).1
  have hat' : (cs ++ l)[o / g.bcs]? = some c := by rwa [List.getElem?_append_left hlt]
  rw [place_eq hat,place_eq hat']

end Place

/-! ### Open files -/

/-- The sector buffer of a file: it holds a sector of the file, and unless it has to be written back
this is what the disk holds. -/
structure Buffered {ι : Type} [DecidableEq ι] (g : Geometry) (chains : ι → List ℕ) (i : ι)
    (cs : List ℕ) (n : ℕ) (fp : Fil Mem) (fs : FATFS) : Prop where
  holds : Holds g chains i cs n fs
  sect : fp.sect = 0 ∧ ¬AnyFlag fp.flag FA_DIRTY ∨ g.Sectors cs fp.sect
  copy : ¬AnyFlag fp.flag FA_DIRTY → g.Sectors cs fp.sect →
    ∀ j < SS,fp.buf j = fs.view (fp.sect * SS + j)

/-- The file object of an open file, the clusters of the file and the volume. -/
structure Opened {ι : Type} [DecidableEq ι] (g : Geometry) (chains : ι → List ℕ) (i : ι)
    (cs : List ℕ) (n : ℕ) (fp : Fil Mem) (fs : FATFS) : Prop extends
    Buffered g chains i cs n fp fs where
  err : fp.err = .ok
  sclust : fp.sclust = cs.head?.getD 0
  within : fp.fptr ≤ fp.objsize
  covered : fp.objsize ≤ cs.length * g.bcs
  clust : 0 < fp.fptr → cs[(fp.fptr - 1) / g.bcs]? = some fp.clust
  loaded : fp.fptr % SS ≠ 0 → fp.sect = g.place cs fp.fptr / SS

/-- The bytes of the file, by their offsets. -/
def Geometry.content (g : Geometry) (cs : List ℕ) (fp : Fil Mem) (fs : FATFS) : Mem := fun o =>
  fp.shown fs.view (g.place cs o)

section Buffer

variable {ι : Type} [DecidableEq ι] {g : Geometry} {chains : ι → List ℕ} {i : ι} {cs cs' : List ℕ}
  {n n' : ℕ} {fp : Fil Mem} {fs fs' : FATFS}

/-- The bits of the access mode, and whether the file has changed. -/
def mode (flag : ℕ) : ℕ := flag &&& (FA_READ ||| FA_WRITE ||| FA_MODIFIED)

theorem mode_and (flag : ℕ) : mode (flag &&& (0xFF ^^^ FA_DIRTY)) = mode flag := by
  rw [mode,Nat.and_assoc]
  rfl

theorem mode_dirty (flag : ℕ) : mode (flag ||| FA_DIRTY) = mode flag := by
  rw [mode,Nat.and_or_distrib_right]
  exact Nat.or_zero _

/-- The bits of the access mode alone. -/
def access (flag : ℕ) : ℕ := flag &&& (FA_READ ||| FA_WRITE)

theorem access_mode (w : ℕ) : mode w &&& (FA_READ ||| FA_WRITE) = access w := by
  rw [mode,Nat.and_assoc]
  rfl

theorem access_congr {w w' : ℕ} (h : mode w' = mode w) : access w' = access w := by
  rw [← access_mode,h,access_mode]

theorem access_changed {w w' : ℕ} (h : mode w' = mode w ||| FA_MODIFIED) : access w' = access w := by
  rw [← access_mode,h,Nat.and_or_distrib_right,access_mode]
  exact Nat.or_zero _

theorem modified_mode (w : ℕ) : AnyFlag w FA_MODIFIED ↔ AnyFlag (mode w) FA_MODIFIED := by
  rw [AnyFlag,AnyFlag,mode,Nat.and_assoc]
  exact Iff.rfl

theorem modified_congr {w w' : ℕ} (h : mode w' = mode w) :
    AnyFlag w' FA_MODIFIED ↔ AnyFlag w FA_MODIFIED := by
  rw [modified_mode,h,← modified_mode]

theorem modified_changed {w w' : ℕ} (h : mode w' = mode w ||| FA_MODIFIED) : AnyFlag w' FA_MODIFIED := by
  rw [modified_mode,h]
  exact anyFlag_or_self (by decide)

theorem notDirty (w : ℕ) : ¬AnyFlag (w &&& (0xFF ^^^ FA_DIRTY)) FA_DIRTY := by
  rw [AnyFlag,Nat.and_assoc]
  exact not_not.mpr (Nat.and_zero w)

theorem Fil.shown_clean {m : Mem} (h : ¬AnyFlag fp.flag FA_DIRTY) : fp.shown m = m := by
  funext a
  exact if_neg fun hd => h hd.1

/-- What the buffer holds is what is shown. -/
theorem Buffered.buf_eq (h : Buffered g chains i cs n fp fs) {a : ℕ} (ha : a / SS = fp.sect)
    (hsect : g.Sectors cs fp.sect) : fp.shown fs.view a = fp.buf (a % SS) := by
  rw [Fil.shown]
  by_cases hdirty : AnyFlag fp.flag FA_DIRTY
  · rw [if_pos ⟨hdirty,ha⟩]
  · have hplace : fp.sect * SS + a % SS = a := by
      rw [← ha,Nat.mul_comm]
      exact Nat.div_add_mod a SS
    rw [if_neg fun hd => hdirty hd.1,h.copy hdirty hsect _ (Nat.mod_lt _ SS_pos),hplace]

/-- No file can become longer than the disk. -/
theorem Holds.small (h : Holds g chains i cs n fs) : (cs.length + n) * g.bcs < 2 ^ 31 := by
  have hnodup := h.alloc.all.nodup (fun hc => by omega) i
  rw [Function.update_self] at hnodup
  have hapart : Disjoint cs.toFinset (g.free fs.view) := by
    rw [Finset.disjoint_left]
    intro c hc hfree
    exact (h.alloc.free_iff.mp hfree).2 i (h.mem (List.mem_toFinset.mp hc))
  have hsub : cs.toFinset ∪ g.free fs.view ⊆ Finset.Ico 2 g.nFatent := by
    intro c hc
    rw [Finset.mem_Ico]
    rcases Finset.mem_union.mp hc with hc | hc
    · exact h.valid (List.mem_toFinset.mp hc)
    · exact (mem_free.mp hc).1
  have hcard := Finset.card_le_card hsub
  rw [Finset.card_union_of_disjoint hapart,List.toFinset_card_of_nodup hnodup,h.free,
    Nat.card_Ico] at hcard
  have hdata := g.dataFits
  have hsects : (cs.length + n) * g.csize ≤ nSects := by
    refine le_trans (Nat.mul_le_mul_right _ hcard) ?_
    rw [Geometry.csize]
    omega
  rw [Geometry.bcs,← Nat.mul_assoc]
  exact lt_of_le_of_lt (Nat.mul_le_mul_right SS hsects) (by decide)

/-- The buffer is written back: nothing that is shown changes. -/
theorem Buffered.flushBuf (h : Buffered g chains i cs n fp fs) :
    ∃ flag fs',FATFS.flushBuf fp fs = (.ok (),{ fp with flag := flag },fs') ∧
      ¬AnyFlag flag FA_DIRTY ∧ mode flag = mode fp.flag ∧
      Buffered g chains i cs n { fp with flag := flag } fs' ∧ fs'.view = fp.shown fs.view ∧
      Beside g cs fs fs' ∧ fs'.wflag = fs.wflag := by
  rw [FATFS.flushBuf]
  by_cases hdirty : AnyFlag fp.flag FA_DIRTY
  · have hsect : g.Sectors cs fp.sect := h.sect.resolve_left fun hd => hd.2 hdirty
    obtain ⟨fs',hwrite,hholds,hview,hbeside,hwflag⟩ :=
      h.holds.write Nat.one_pos (one_sector hsect) fp.buf
    have hshown : fs'.view = fp.shown fs.view := by
      rw [hview]
      funext a
      rw [Fil.shown,Nat.one_mul]
      by_cases ha : a / SS = fp.sect
      · obtain ⟨hlo,hhi⟩ := (Nat.div_eq_iff SS_pos).mp ha
        obtain ⟨j,rfl⟩ := Nat.exists_eq_add_of_le hlo
        have hpos := SS_pos
        have hj : j < SS := by omega
        rw [if_pos ⟨hdirty,ha⟩,memcpy_inside hj,Nat.zero_add,Nat.mul_add_mod',Nat.mod_eq_of_lt hj]
      · rw [if_neg fun hd => ha hd.2]
        refine memcpy_outside ?_
        by_contra hin
        exact ha ((Nat.div_eq_iff SS_pos).mpr (by omega))
    rw [if_pos hdirty,hwrite]
    refine ⟨_,fs',rfl,notDirty _,mode_and fp.flag,⟨hholds,Or.inr hsect,fun _ _ j hj => ?_⟩,hshown,
      hbeside,hwflag⟩
    show fp.buf j = fs'.view (fp.sect * SS + j)
    have hdiv : (fp.sect * SS + j) / SS = fp.sect := by
      rw [Nat.mul_comm,Nat.mul_add_div SS_pos,Nat.div_eq_of_lt hj,Nat.add_zero]
    rw [hshown,h.buf_eq hdiv hsect,Nat.mul_add_mod',Nat.mod_eq_of_lt hj]
  · rw [if_neg hdirty]
    exact ⟨fp.flag,fs,rfl,hdirty,rfl,h,(Fil.shown_clean hdirty).symm,.refl g cs fs,rfl⟩

/-- A sector of the file comes into the buffer. -/
theorem Buffered.loadSector (h : Buffered g chains i cs n fp fs) {sect : ℕ}
    (hsect : g.Sectors cs sect) :
    ∃ flag buf fs',FATFS.loadSector sect fp fs =
        (.ok (),{ fp with flag := flag, buf := buf, sect := sect },fs') ∧
      mode flag = mode fp.flag ∧ (AnyFlag flag FA_DIRTY → AnyFlag fp.flag FA_DIRTY) ∧
      Buffered g chains i cs n { fp with flag := flag, buf := buf, sect := sect } fs' ∧
      Fil.shown { fp with flag := flag, buf := buf, sect := sect } fs'.view = fp.shown fs.view ∧
      Beside g cs fs fs' ∧ fs'.wflag = fs.wflag := by
  rw [FATFS.loadSector]
  by_cases hsame : fp.sect = sect
  · rw [if_neg (not_not.mpr hsame),← hsame]
    exact ⟨fp.flag,fp.buf,fs,rfl,rfl,id,h,rfl,.refl g cs fs,rfl⟩
  · rw [if_pos hsame]
    obtain ⟨flag,fs',hflush,hclean,hmode,hbuf,hview,hbeside,hwflag⟩ := h.flushBuf
    obtain ⟨data,hread,hdata⟩ := hbuf.holds.read Nat.one_pos (one_sector hsect) fp.buf
    rw [Nat.one_mul] at hdata
    simp only [hflush,hread]
    refine ⟨flag,data,fs',rfl,hmode,fun hd => absurd hd hclean,
      ⟨hbuf.holds,Or.inr hsect,fun _ _ => hdata⟩,?_,hbeside,hwflag⟩
    rw [Fil.shown_clean hclean,hview]

theorem Sectors_mono (hle : cs <+: cs') {sect : ℕ} (hsect : g.Sectors cs sect) : g.Sectors cs' sect := by
  obtain ⟨c,hc,hrest⟩ := hsect
  exact ⟨c,hle.subset hc,hrest⟩

/-- What is shown of the file stays, so the buffer is as good as it was. -/
theorem Buffered.same {chains' : ι → List ℕ} (h : Buffered g chains i cs n fp fs)
    (hsame : ∀ a,g.Sectors cs (a / SS) → fs'.view a = fs.view a) (hle : cs <+: cs')
    (hholds : Holds g chains' i cs' n' fs') : Buffered g chains' i cs' n' fp fs' := by
  refine ⟨hholds,h.sect.imp_right (Sectors_mono hle),fun hclean hsect j hj => ?_⟩
  have hdiv : (fp.sect * SS + j) / SS = fp.sect := by
    rw [Nat.mul_comm,Nat.mul_add_div SS_pos,Nat.div_eq_of_lt hj,Nat.add_zero]
  -- the buffer holds a sector of the clusters that were there before
  have hold : g.Sectors cs fp.sect := by
    refine h.sect.resolve_left fun hnone => ?_
    obtain ⟨c,hc,k,_,hzero⟩ := hsect
    obtain ⟨hdata,_,hpos⟩ := cluster_sectors (hholds.valid hc).1 (hholds.valid hc).2
    have hnone := hnone.1
    omega
  rw [hsame _ (by rwa [hdiv])]
  exact h.copy hclean hold j hj

/-- A change of the FAT is none of the file's bytes. -/
theorem Untouched.same (hu : Untouched g fs fs') (hholds : Holds g chains i cs n fs) :
    ∀ a,g.Sectors cs (a / SS) → fs'.view a = fs.view a := by
  intro a ha
  obtain ⟨hlo,hhi⟩ := hholds.sectors ha
  have hdata : g.database * SS ≤ a := (Nat.le_div_iff_mul_le SS_pos).mp hlo
  exact hu.view a ((Nat.div_lt_iff_lt_mul SS_pos).mp hhi) (data_not_fats hdata)

theorem Buffered.untouched (h : Buffered g chains i cs n fp fs) (hu : Untouched g fs fs')
    (hle : cs <+: cs') (hholds : Holds g chains i cs' n' fs') :
    Buffered g chains i cs' n' fp fs' ∧ ∀ a,g.Sectors cs (a / SS) → fs'.view a = fs.view a :=
  ⟨h.same (hu.same h.holds) hle hholds,hu.same h.holds⟩

/-- So is a look at the FAT. -/
theorem Buffered.looked (h : Buffered g chains i cs n fp fs) (hl : Looked g fs fs') :
    Buffered g chains i cs n fp fs' ∧ ∀ a,g.Sectors cs (a / SS) → fs'.view a = fs.view a :=
  h.untouched hl.untouched List.prefix_rfl (h.holds.looked hl)

end Buffer

end UcVfs.Fatfs
