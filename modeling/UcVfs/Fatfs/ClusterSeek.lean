import UcVfs.Fatfs.DirVolume

/-!
# Seeking along a cluster chain

`f_lseek` of `ff.c`, without its fast seek, down to the functions that read and stretch a chain in
the FAT and move sectors. On a sound volume it stops at the target or at the last byte that the
chain can come to hold.
-/

namespace UcVfs.Fatfs

open Framework

/-- The sector buffer has to be written back. -/
def FA_DIRTY : ℕ := 0x80

/-- The members of `FIL` and of its `FFOBJID` that a seek deals with. -/
structure Fil (Buf : Type) where
  objsize : ℕ
  sclust : ℕ
  flag : ℕ
  err : FResult
  fptr : ℕ
  clust : ℕ
  sect : ℕ
  buf : Buf

/-- How many clusters the file can have: a seek allocates some when it was opened for writing. -/
def Fil.clusters {Buf : Type} (fp : Fil Buf) (cs : List ℕ) (n : ℕ) : ℕ :=
  if fp.flag &&& FA_WRITE = 0 then cs.length else cs.length + n

/-- The volume of an open file: its geometry, and the functions that `f_lseek` calls with it. The
number of sectors of a cluster is a power of two. -/
structure FatVolume (Buf σ : Type) where
  csizeLog : ℕ
  nFatent : ℕ
  validate : Fil Buf → σ → FResult
  getFat : ℕ → σ → ℕ × σ
  createChain : ℕ → σ → ℕ × σ
  clst2sect : ℕ → ℕ
  diskRead : Buf → ℕ → σ → (Bool × Buf) × σ
  diskWrite : Buf → ℕ → σ → Bool × σ

variable {Buf σ : Type} (v : FatVolume Buf σ)

namespace FatVolume

def csize : ℕ := 2 ^ v.csizeLog

/-- The size of a cluster in bytes. -/
def bcs : ℕ := v.csize * SS

/-- The cluster following loop. -/
def follow : ℕ → ℕ → ℕ → Fil Buf → σ → Except FResult (ℕ × ℕ) × Fil Buf × σ
  | 0,ofs,clst,fp,s => (.ok (ofs,clst),fp,s)
  | fuel + 1,ofs,clst,fp,s =>
    if ofs > v.bcs then
      let ofs := ofs - v.bcs
      let fp := { fp with fptr := fp.fptr + v.bcs }
      let (clst,s) := if fp.flag &&& FA_WRITE ≠ 0 then v.createChain clst s else v.getFat clst s
      -- the disk is full
      if fp.flag &&& FA_WRITE ≠ 0 ∧ clst = 0 then (.ok (0,clst),fp,s)
      else if clst = 0xFFFFFFFF then (.error .diskErr,fp,s)
      else if clst ≤ 1 ∨ clst ≥ v.nFatent then (.error .intErr,fp,s)
      else follow fuel ofs clst { fp with clust := clst } s
    else (.ok (ofs,clst),fp,s)

/-- Where the loop starts: at the current cluster, or at the first one, which a file without a
chain gets now. -/
def seekStart (ofs ifptr : ℕ) (fp : Fil Buf) (s : σ) : Except FResult (ℕ × ℕ) × Fil Buf × σ :=
  if ifptr > 0 ∧ (ofs - 1) / v.bcs ≥ (ifptr - 1) / v.bcs then
    let fptr := (ifptr - 1) / v.bcs * v.bcs
    (.ok (ofs - fptr,fp.clust),{ fp with fptr := fptr },s)
  else if fp.sclust = 0 then
    let (clst,s) := v.createChain 0 s
    if clst = 1 then (.error .intErr,fp,s)
    else if clst = 0xFFFFFFFF then (.error .diskErr,fp,s)
    else (.ok (ofs,clst),{ fp with sclust := clst, clust := clst },s)
  else
    (.ok (ofs,fp.sclust),{ fp with clust := fp.sclust },s)

/-- Moves the pointer; the result is the sector that it points into. -/
def moveTo (ofs : ℕ) (fp : Fil Buf) (s : σ) : Except FResult ℕ × Fil Buf × σ :=
  let ifptr := fp.fptr
  let fp := { fp with fptr := 0 }
  if ofs > 0 then
    match v.seekStart ofs ifptr fp s with
    | (.error res,fp,s) => (.error res,fp,s)
    | (.ok (ofs,clst),fp,s) =>
      if clst ≠ 0 then
        match v.follow (ofs / v.bcs) ofs clst fp s with
        | (.error res,fp,s) => (.error res,fp,s)
        | (.ok (ofs,clst),fp,s) =>
          let fp := { fp with fptr := fp.fptr + ofs }
          if ofs % SS ≠ 0 then
            let nsect := v.clst2sect clst
            if nsect = 0 then (.error .intErr,fp,s) else (.ok (nsect + ofs / SS),fp,s)
          else (.ok 0,fp,s)
      else (.ok 0,fp,s)
  else (.ok 0,fp,s)

/-- Writes the sector buffer back. -/
def flushBuf (fp : Fil Buf) (s : σ) : Except FResult Unit × Fil Buf × σ :=
  if fp.flag &&& FA_DIRTY ≠ 0 then
    let (ok,s) := v.diskWrite fp.buf fp.sect s
    if ok then (.ok (),{ fp with flag := fp.flag &&& (0xFF ^^^ FA_DIRTY) },s)
    else (.error .diskErr,fp,s)
  else (.ok (),fp,s)

/-- The sector buffer is filled with another sector. -/
def fillBuf (nsect : ℕ) (fp : Fil Buf) (s : σ) : Except FResult Unit × Fil Buf × σ :=
  match v.flushBuf fp s with
  | (.error res,fp,s) => (.error res,fp,s)
  | (.ok _,fp,s) =>
    let ((ok,buf),s) := v.diskRead fp.buf nsect s
    if ok then (.ok (),{ fp with buf := buf, sect := nsect },s)
    else (.error .diskErr,{ fp with buf := buf },s)

/-- Inside of a sector, this comes into the buffer. -/
def arrive (nsect : ℕ) (fp : Fil Buf) (s : σ) : FResult × Fil Buf × σ :=
  if fp.fptr % SS ≠ 0 ∧ nsect ≠ fp.sect then
    match v.fillBuf nsect fp s with
    | (.error res,fp,s) => (res,{ fp with err := res },s)
    | (.ok _,fp,s) => (.ok,fp,s)
  else (.ok,fp,s)

/-- What the object must pass before anything is done with it. -/
def check (fp : Fil Buf) (s : σ) : FResult :=
  let res := v.validate fp s
  if res = .ok then fp.err else res

def fLseek (ofs : ℕ) (fp : Fil Buf) (s : σ) : FResult × Fil Buf × σ :=
  let res := v.check fp s
  if res ≠ .ok then (res,fp,s)
  else
    -- in read-only mode the offset is clipped
    let ofs := if ofs > fp.objsize ∧ fp.flag &&& FA_WRITE = 0 then fp.objsize else ofs
    match v.moveTo ofs fp s with
    | (.error res,fp,s) => (res,{ fp with err := res },s)
    | (.ok nsect,fp,s) =>
      let fp := if fp.fptr > fp.objsize then
          { fp with objsize := fp.fptr, flag := fp.flag ||| FA_MODIFIED }
        else fp
      v.arrive nsect fp s

/-- What `ff.c` does with a sound FAT: the file has the clusters of the chain, in this order, and a
number of further ones can be allocated. -/
structure Walks (Chain : List ℕ → ℕ → σ → Prop) : Prop where
  nFatent : v.nFatent ≤ 0xFFFFFFFF
  cluster : ∀ {cs n s},Chain cs n s → ∀ c ∈ cs,2 ≤ c ∧ c < v.nFatent ∧ v.clst2sect c ≠ 0
  getFat : ∀ {cs n s},Chain cs n s → ∀ {i c d},cs[i]? = some c → cs[i + 1]? = some d →
    ∃ s',v.getFat c s = (d,s') ∧ Chain cs n s'
  next : ∀ {cs n s},Chain cs n s → ∀ {i c d},cs[i]? = some c → cs[i + 1]? = some d →
    ∃ s',v.createChain c s = (d,s') ∧ Chain cs n s'
  full : ∀ {cs s},Chain cs 0 s →
    ∃ s',v.createChain (cs.getLast?.getD 0) s = (0,s') ∧ Chain cs 0 s'
  grow : ∀ {cs n s},Chain cs (n + 1) s →
    ∃ d s',v.createChain (cs.getLast?.getD 0) s = (d,s') ∧ Chain (cs ++ [d]) n s'

/-- And the disk can be read and written where the chain is. -/
structure Sound (Chain : List ℕ → ℕ → σ → Prop) : Prop extends v.Walks Chain where
  diskRead : ∀ {cs n s},Chain cs n s → ∀ c ∈ cs,∀ k < v.csize,∀ buf,
    ∃ buf' s',v.diskRead buf (v.clst2sect c + k) s = ((true,buf'),s') ∧ Chain cs n s'
  diskWrite : ∀ {cs n s},Chain cs n s → ∀ c ∈ cs,∀ k < v.csize,∀ buf,
    ∃ s',v.diskWrite buf (v.clst2sect c + k) s = (true,s') ∧ Chain cs n s'

/-- The walk has come to a place: from the position of the file object `ofs` more bytes, in a
cluster of the chain. The cluster of the file object is the one of the last byte before the place. The
chain is stretched only for a place behind its end. -/
inductive Stops (Chain : List ℕ → ℕ → σ → Prop) (cs : List ℕ) (m : ℕ) (fp : Fil Buf) (stop : ℕ) :
    Except FResult (ℕ × ℕ) × Fil Buf × σ → Prop
  | intro {i ofs clst fptr clust n' : ℕ} {s : σ} {cs' : List ℕ} (chain : Chain cs' n' s)
      (grown : cs <+: cs') (needed : stop ≤ cs.length * v.bcs → cs' = cs)
      (room : cs'.length + n' = m) (aligned : fptr = i * v.bcs)
      (there : fptr + ofs = stop) (inside : ofs % SS ≠ 0 → cs'[i]? = some clst ∧ ofs < v.bcs)
      (last : cs'[(stop - 1) / v.bcs]? = some clust) :
    Stops Chain cs m fp stop (.ok (ofs,clst),{ fp with fptr := fptr, clust := clust },s)

section Walk

variable {v} {Chain : List ℕ → ℕ → σ → Prop} {cs cs' : List ℕ} {n n' i clst ofs : ℕ} {fp : Fil Buf}
  {s : σ}

theorem bcs_pos : 0 < v.bcs := Nat.mul_pos (Nat.two_pow_pos _) (by decide)

theorem bcs_mod_SS : v.bcs % SS = 0 := Nat.mul_mod_left _ _

variable (v) in
theorem mul_bcs_mod_SS (i : ℕ) : i * v.bcs % SS = 0 := by
  rw [Nat.mul_mod,bcs_mod_SS,Nat.mul_zero,Nat.zero_mod]

theorem Stops.moved {m stop fptr clust : ℕ} {r : Except FResult (ℕ × ℕ) × Fil Buf × σ}
    (h : v.Stops Chain cs' m { fp with fptr := fptr, clust := clust } stop r) (hle : cs <+: cs')
    (hneeded : stop ≤ cs.length * v.bcs → cs' = cs) : v.Stops Chain cs m fp stop r := by
  cases h with
  | intro chain grown needed room aligned there inside last =>
    refine .intro chain (hle.trans grown) (fun hstop => ?_) room aligned there inside last
    have hsame := hneeded hstop
    rw [hsame] at needed
    exact needed hstop

/-- The cluster that the walk is in holds the target. -/
theorem stops_here (hchain : Chain cs n s) (hclst : cs[i]? = some clst) (hclust : fp.clust = clst)
    (hfptr : fp.fptr = i * v.bcs) (hpos : 0 < ofs) (hle : ofs ≤ v.bcs) :
    v.Stops Chain cs (cs.length + n) fp (min (fp.fptr + ofs) (fp.clusters cs n * v.bcs))
      (.ok (ofs,clst),fp,s) := by
  have hi : i + 1 ≤ fp.clusters cs n := by
    have hlt := (List.getElem?_eq_some_iff.mp hclst).1
    unfold Fil.clusters
    split <;> omega
  have hfits : (i + 1) * v.bcs ≤ fp.clusters cs n * v.bcs := Nat.mul_le_mul_right _ hi
  rw [Nat.succ_mul] at hfits
  have hstop : min (fp.fptr + ofs) (fp.clusters cs n * v.bcs) = i * v.bcs + ofs := by omega
  have hlast : (i * v.bcs + ofs - 1) / v.bcs = i := by
    rw [Nat.div_eq_iff bcs_pos]
    omega
  rw [hstop]
  refine .intro hchain List.prefix_rfl (fun _ => rfl) rfl hfptr (by omega)
    (fun hmod => ⟨hclst,?_⟩) ?_
  · refine lt_of_le_of_ne hle fun he => hmod ?_
    rw [he]
    exact bcs_mod_SS
  · rw [hlast,hclust]
    exact hclst

variable (hv : v.Walks Chain)

include hv

theorem Walks.valid {c : ℕ} (hchain : Chain cs n s) (hc : c ∈ cs) :
    c ≠ 0 ∧ c ≠ 1 ∧ c ≠ 0xFFFFFFFF ∧ ¬(c ≤ 1 ∨ c ≥ v.nFatent) := by
  have hcluster := hv.cluster hchain c hc
  have hlimit := hv.nFatent
  omega

/-- One round of the loop finds the next cluster, with a new one behind the last, or the disk is
full. -/
theorem Walks.step (hchain : Chain cs n s) (hclst : cs[i]? = some clst)
    (hread : fp.flag &&& FA_WRITE = 0 → i + 1 < cs.length) :
    (∃ d s' cs' n',(if fp.flag &&& FA_WRITE ≠ 0 then v.createChain clst s else v.getFat clst s) =
        (d,s') ∧ Chain cs' n' s' ∧ cs <+: cs' ∧ cs'[i + 1]? = some d ∧
        fp.clusters cs' n' = fp.clusters cs n ∧ cs'.length + n' = cs.length + n ∧
        (cs' = cs ∨ i + 1 = cs.length)) ∨
      (i + 1 = fp.clusters cs n ∧ fp.flag &&& FA_WRITE ≠ 0 ∧ n = 0 ∧
        ∃ s',v.createChain clst s = (0,s') ∧ Chain cs 0 s') := by
  obtain ⟨hi,-⟩ := List.getElem?_eq_some_iff.mp hclst
  by_cases hlast : i + 1 < cs.length
  · have hd : cs[i + 1]? = some cs[i + 1] := List.getElem?_eq_getElem hlast
    left
    by_cases hwrite : fp.flag &&& FA_WRITE = 0
    · obtain ⟨s',hget,hchain'⟩ := hv.getFat hchain hclst hd
      exact ⟨_,s',cs,n,(if_neg (not_not.mpr hwrite)).trans hget,hchain',List.prefix_rfl,hd,rfl,rfl,
        Or.inl rfl⟩
    · obtain ⟨s',hnext,hchain'⟩ := hv.next hchain hclst hd
      exact ⟨_,s',cs,n,(if_pos hwrite).trans hnext,hchain',List.prefix_rfl,hd,rfl,rfl,Or.inl rfl⟩
  · have hlen : i + 1 = cs.length := by omega
    have hwrite : fp.flag &&& FA_WRITE ≠ 0 := fun h => hlast (hread h)
    have hend : cs.getLast?.getD 0 = clst := by
      rw [List.getLast?_eq_getElem?,← hlen,Nat.add_sub_cancel,hclst]
      rfl
    cases n with
    | zero =>
      obtain ⟨s',hfull,hchain'⟩ := hv.full hchain
      rw [hend] at hfull
      refine Or.inr ⟨?_,hwrite,rfl,s',hfull,hchain'⟩
      rw [Fil.clusters,if_neg hwrite,hlen,Nat.add_zero]
    | succ n =>
      obtain ⟨d,s',hgrow,hchain'⟩ := hv.grow hchain
      rw [hend] at hgrow
      have hroom : (cs ++ [d]).length + n = cs.length + (n + 1) := by
        simp only [List.length_append,List.length_singleton]
        omega
      refine Or.inl ⟨d,s',cs ++ [d],n,(if_pos hwrite).trans hgrow,hchain',List.prefix_append _ _,?_,?_,
        hroom,Or.inr hlen⟩
      · rw [hlen,List.getElem?_concat_length]
      · rwa [Fil.clusters,Fil.clusters,if_neg hwrite,if_neg hwrite]

/-- The loop stops in the cluster of the target, or behind the last cluster there is. -/
theorem Walks.follow (fuel : ℕ) (hchain : Chain cs n s) (hclst : cs[i]? = some clst)
    (hclust : fp.clust = clst) (hfptr : fp.fptr = i * v.bcs) (hpos : 0 < ofs)
    (hfuel : ofs ≤ (fuel + 1) * v.bcs)
    (hread : fp.flag &&& FA_WRITE = 0 → fp.fptr + ofs ≤ cs.length * v.bcs) :
    v.Stops Chain cs (cs.length + n) fp (min (fp.fptr + ofs) (fp.clusters cs n * v.bcs))
      (v.follow fuel ofs clst fp s) := by
  induction fuel generalizing ofs clst i n fp s cs with
  | zero =>
    have hle : ofs ≤ v.bcs := by omega
    exact stops_here hchain hclst hclust hfptr hpos hle
  | succ fuel ih =>
    rw [FatVolume.follow]
    by_cases hmore : ofs > v.bcs
    · rw [if_pos hmore]
      have hroom : fp.flag &&& FA_WRITE = 0 → i + 1 < cs.length := by
        intro hwrite
        have hfits := hread hwrite
        rw [hfptr] at hfits
        refine lt_of_mul_lt_mul_right (a := v.bcs) ?_ (Nat.zero_le _)
        rw [Nat.succ_mul]
        omega
      have hnext : fp.fptr + v.bcs = (i + 1) * v.bcs := by rw [hfptr,Nat.succ_mul]
      rcases hv.step hchain hclst hroom with
        ⟨d,s',cs',n',hstep,hchain',hgrown,hd,hsame,hall,hwhy⟩ | ⟨hlast,hwrite,rfl,s',hfull,hchain'⟩
      · have hvalid := hv.valid hchain' (List.mem_of_getElem? hd)
        simp only [hstep]
        rw [if_neg fun h => hvalid.1 h.2,if_neg hvalid.2.2.1,if_neg hvalid.2.2.2]
        have hthere : fp.fptr + v.bcs + (ofs - v.bcs) = fp.fptr + ofs := by omega
        have hleft : ofs - v.bcs ≤ (fuel + 1) * v.bcs := by
          rw [Nat.succ_mul] at hfuel
          omega
        have hread' : fp.flag &&& FA_WRITE = 0 →
            fp.fptr + v.bcs + (ofs - v.bcs) ≤ cs'.length * v.bcs := by
          intro hwrite
          rw [hthere]
          exact (hread hwrite).trans (Nat.mul_le_mul_right _ hgrown.length_le)
        have hstops : v.Stops Chain cs' (cs'.length + n')
            { fp with fptr := fp.fptr + v.bcs, clust := d } _ _ :=
          ih hchain' hd rfl hnext (by omega) hleft hread'
        rw [← hthere,← hsame,← hall]
        refine hstops.moved hgrown fun hstop => hwhy.resolve_right fun hlast => ?_
        -- the place is behind the end of the chain
        have hroom : i + 2 ≤ fp.clusters cs' n' := by
          have hlt := (List.getElem?_eq_some_iff.mp hd).1
          rw [Fil.clusters]
          split <;> omega
        have hfits : (i + 1 + 1) * v.bcs ≤ fp.clusters cs' n' * v.bcs := Nat.mul_le_mul_right _ hroom
        have hbcs : 0 < v.bcs := bcs_pos
        rw [Nat.succ_mul] at hfits
        have hstop : min (fp.fptr + v.bcs + (ofs - v.bcs)) (fp.clusters cs' n' * v.bcs) ≤
            (i + 1) * v.bcs := hlast ▸ hstop
        omega
      · simp only [if_pos hwrite,hfull]
        rw [if_pos ⟨hwrite,trivial⟩]
        have hstop : min (fp.fptr + ofs) (fp.clusters cs 0 * v.bcs) = (i + 1) * v.bcs := by
          rw [← hlast,← hnext]
          omega
        have hlast' : ((i + 1) * v.bcs - 1) / v.bcs = i := by
          rw [Nat.div_eq_iff bcs_pos,Nat.succ_mul]
          have hbcs : 0 < v.bcs := bcs_pos
          omega
        rw [hstop]
        refine @Stops.intro _ _ v Chain cs _ fp _ (i + 1) 0 0 _ fp.clust _ _ _ hchain'
          List.prefix_rfl (fun _ => rfl) rfl hnext hnext (by simp) ?_
        rw [hlast',hclust]
        exact hclst
    · rw [if_neg hmore]
      exact stops_here hchain hclst hclust hfptr hpos (not_lt.mp hmore)

end Walk

/-- A file object and the clusters of its file. -/
structure Stands (fp : Fil Buf) (cs : List ℕ) : Prop where
  sclust : fp.sclust = cs.head?.getD 0
  within : fp.fptr ≤ fp.objsize
  covered : fp.objsize ≤ cs.length * v.bcs
  clust : 0 < fp.fptr → cs[(fp.fptr - 1) / v.bcs]? = some fp.clust
  dirty : fp.flag &&& FA_DIRTY ≠ 0 → ∃ c ∈ cs,∃ k < v.csize,fp.sect = v.clst2sect c + k

section Seek

variable {v} {Chain : List ℕ → ℕ → σ → Prop} {cs : List ℕ} {n ofs : ℕ} {fp : Fil Buf} {s : σ}

/-- The loop has something to start from, or the first cluster cannot be allocated. -/
theorem Walks.seekStart (hv : v.Walks Chain) (hchain : Chain cs n s) (hfp : v.Stands fp cs)
    (hofs : 0 < ofs) (hread : fp.flag &&& FA_WRITE = 0 → ofs ≤ fp.objsize) :
    (∃ i clst sclust s' cs' n',
      v.seekStart ofs fp.fptr { fp with fptr := 0 } s = (.ok (ofs - i * v.bcs,clst),
        { fp with fptr := i * v.bcs, clust := clst, sclust := sclust },s') ∧
      Chain cs' n' s' ∧ cs <+: cs' ∧ cs'[i]? = some clst ∧ i * v.bcs < ofs ∧
      fp.clusters cs' n' = fp.clusters cs n ∧ cs'.length + n' = cs.length + n ∧
      sclust = cs'.head?.getD 0 ∧ (cs' = cs ∨ cs = [])) ∨
    (fp.clusters cs n = 0 ∧ cs = [] ∧ n = 0 ∧ ∃ s',
      v.seekStart ofs fp.fptr { fp with fptr := 0 } s =
        (.ok (ofs,0),{ fp with fptr := 0, clust := 0, sclust := 0 },s') ∧ Chain cs 0 s') := by
  have hbcs : 0 < v.bcs := bcs_pos
  rw [FatVolume.seekStart]
  by_cases hon : fp.fptr > 0 ∧ (ofs - 1) / v.bcs ≥ (fp.fptr - 1) / v.bcs
  · rw [if_pos hon]
    have hbefore : (fp.fptr - 1) / v.bcs * v.bcs < ofs := by
      have hle : (fp.fptr - 1) / v.bcs * v.bcs ≤ ofs - 1 :=
        (Nat.mul_le_mul_right _ hon.2).trans (Nat.div_mul_le_self _ _)
      omega
    exact Or.inl ⟨_,fp.clust,fp.sclust,s,cs,n,rfl,hchain,List.prefix_rfl,hfp.clust hon.1,hbefore,rfl,
      rfl,hfp.sclust,Or.inl rfl⟩
  · rw [if_neg hon]
    have hstart := hfp.sclust
    cases cs with
    | cons c rest =>
      have hc : fp.sclust = c := hstart
      have hvalid := hv.valid hchain (List.mem_cons_self (a := c) (l := rest))
      rw [if_neg (by rw [hc]; exact hvalid.1)]
      refine Or.inl ⟨0,c,c,s,c :: rest,n,?_,hchain,List.prefix_rfl,rfl,by omega,rfl,rfl,rfl,
        Or.inl rfl⟩
      simp only [hc,Nat.zero_mul,Nat.sub_zero]
    | nil =>
      have hempty : fp.objsize ≤ 0 * v.bcs := hfp.covered
      have hwrite : fp.flag &&& FA_WRITE ≠ 0 := fun h => by
        have hle := hread h
        omega
      have hnone : fp.sclust = 0 := hstart
      rw [if_pos hnone]
      cases n with
      | zero =>
        obtain ⟨s',hfull,hchain'⟩ := hv.full hchain
        have hfull : v.createChain 0 s = (0,s') := hfull
        refine Or.inr ⟨by simp [Fil.clusters],rfl,rfl,s',?_,hchain'⟩
        simp [hfull]
      | succ n =>
        obtain ⟨d,s',hgrow,hchain'⟩ := hv.grow hchain
        have hgrow : v.createChain 0 s = (d,s') := hgrow
        have hvalid := hv.valid hchain' (List.mem_singleton_self d)
        refine Or.inl ⟨0,d,d,s',[d],n,?_,hchain',List.nil_prefix,rfl,by omega,?_,?_,rfl,
          Or.inr rfl⟩
        · simp only [hgrow,if_neg hvalid.2.1,if_neg hvalid.2.2.1,Nat.zero_mul,Nat.sub_zero]
        · simp [Fil.clusters,hwrite,Nat.add_comm]
        · simp [Nat.add_comm]

/-- Where the pointer stands after a move. -/
structure Moved (v : FatVolume Buf σ) (cs : List ℕ) (stop nsect clust sclust : ℕ) : Prop where
  sclust : sclust = cs.head?.getD 0
  covered : stop ≤ cs.length * v.bcs
  clust : 0 < stop → cs[(stop - 1) / v.bcs]? = some clust
  sect : stop % SS ≠ 0 → ∃ c,cs[stop / v.bcs]? = some c ∧ nsect = v.clst2sect c + stop % v.bcs / SS

/-- The pointer is moved to the target, or behind the last cluster there is. -/
theorem Walks.moveTo (hv : v.Walks Chain) (hchain : Chain cs n s) (hfp : v.Stands fp cs)
    (hread : fp.flag &&& FA_WRITE = 0 → ofs ≤ fp.objsize) :
    ∃ nsect clust sclust s' cs' n',v.moveTo ofs fp s = (.ok nsect,
        { fp with fptr := min ofs (fp.clusters cs n * v.bcs), clust := clust, sclust := sclust },
        s') ∧
      Chain cs' n' s' ∧ cs <+: cs' ∧ cs'.length + n' = cs.length + n ∧
      (min ofs (fp.clusters cs n * v.bcs) ≤ cs.length * v.bcs → cs' = cs) ∧
      Moved v cs' (min ofs (fp.clusters cs n * v.bcs)) nsect clust sclust := by
  rw [FatVolume.moveTo]
  by_cases hofs : 0 < ofs
  · simp only [gt_iff_lt,if_pos hofs]
    rcases hv.seekStart hchain hfp hofs hread with
      ⟨i,clst,sclust,s',cs',n',hstart,hchain',hgrown,hclst,hbefore,hsame,hroom,hhead,
        hwhy⟩ |
      ⟨hnone,hempty,rfl,s',hstart,hchain'⟩
    · have hvalid := hv.valid hchain' (List.mem_of_getElem? hclst)
      simp only [hstart]
      rw [if_pos hvalid.1]
      have hleft : i * v.bcs + (ofs - i * v.bcs) = ofs := by omega
      have hfuel : ofs - i * v.bcs ≤ ((ofs - i * v.bcs) / v.bcs + 1) * v.bcs := by
        rw [Nat.succ_mul]
        exact (Nat.lt_div_mul_add bcs_pos).le
      have hread' : fp.flag &&& FA_WRITE = 0 →
          i * v.bcs + (ofs - i * v.bcs) ≤ cs'.length * v.bcs := by
        intro hwrite
        rw [hleft]
        exact ((hread hwrite).trans hfp.covered).trans (Nat.mul_le_mul_right _ hgrown.length_le)
      have hstop : min (i * v.bcs + (ofs - i * v.bcs)) (fp.clusters cs' n' * v.bcs) =
          min ofs (fp.clusters cs n * v.bcs) := by rw [hleft,hsame]
      have hstops : v.Stops Chain cs' (cs'.length + n')
          { fp with fptr := i * v.bcs, clust := clst, sclust := sclust } _ _ :=
        hv.follow ((ofs - i * v.bcs) / v.bcs) hchain' hclst rfl rfl (by omega) hfuel hread'
      generalize v.follow ((ofs - i * v.bcs) / v.bcs) (ofs - i * v.bcs) clst
        { fp with fptr := i * v.bcs, clust := clst, sclust := sclust } s' = walked at hstops ⊢
      cases hstops with
      | @intro i₁ ofs₁ clst₁ fptr clust₁ n₁ s₁ cs₁ chain grown needed room aligned there inside last =>
        have hptr : fptr + ofs₁ = min ofs (fp.clusters cs n * v.bcs) := there.trans hstop
        have hlast : cs₁[(min ofs (fp.clusters cs n * v.bcs) - 1) / v.bcs]? = some clust₁ := by
          rw [← hstop]
          exact last
        have needed : min ofs (fp.clusters cs n * v.bcs) ≤ cs'.length * v.bcs → cs₁ = cs' :=
          fun hle => needed (le_of_eq_of_le hstop hle)
        have hpos : 0 < min ofs (fp.clusters cs n * v.bcs) := by
          have hlt := (List.getElem?_eq_some_iff.mp hclst).1
          have hone : 1 ≤ fp.clusters cs' n' := by
            rw [Fil.clusters]
            split <;> omega
          have hbcs : v.bcs ≤ fp.clusters cs' n' * v.bcs := Nat.le_mul_of_pos_left _ hone
          have hbcs' : 0 < v.bcs := bcs_pos
          rw [hsame] at hbcs
          omega
        generalize min ofs (fp.clusters cs n * v.bcs) = stop at hptr hlast needed hpos ⊢
        have hneeded : stop ≤ cs.length * v.bcs → cs₁ = cs := by
          intro hle
          rcases hwhy with rfl | rfl
          · exact needed hle
          · rw [List.length_nil,Nat.zero_mul] at hle
            omega
        have hmod : stop % SS = ofs₁ % SS := by
          rw [← hptr,aligned,Nat.add_mod,v.mul_bcs_mod_SS,Nat.zero_add,Nat.mod_mod]
        have hcovered : stop ≤ cs₁.length * v.bcs := by
          have hlt := (List.getElem?_eq_some_iff.mp hlast).1
          have hle := (Nat.div_lt_iff_lt_mul (bcs_pos (v := v))).mp hlt
          omega
        have hhead₁ : sclust = cs₁.head?.getD 0 := by
          obtain ⟨l,rfl⟩ := grown
          cases cs' with
          | nil => simp at hclst
          | cons d rest => exact hhead
        by_cases hsect : ofs₁ % SS ≠ 0
        · obtain ⟨hat,hlt⟩ := inside hsect
          have hin : ofs₁ / SS < v.csize := Nat.div_lt_of_lt_mul (by rwa [Nat.mul_comm])
          have hsplit : stop / v.bcs = i₁ ∧ stop % v.bcs = ofs₁ := by
            rw [← hptr,aligned,Nat.mul_comm,Nat.mul_add_div bcs_pos,Nat.div_eq_of_lt hlt,
              Nat.mul_add_mod,Nat.mod_eq_of_lt hlt]
            exact ⟨rfl,rfl⟩
          have hvalid₁ := hv.cluster chain clst₁ (List.mem_of_getElem? hat)
          simp only [if_pos hsect,if_neg hvalid₁.2.2,hptr]
          refine ⟨_,clust₁,sclust,s₁,cs₁,n₁,rfl,chain,hgrown.trans grown,room.trans hroom,
            hneeded,hhead₁,hcovered,fun _ => hlast,fun _ => ⟨clst₁,?_,?_⟩⟩
          · rwa [hsplit.1]
          · rw [hsplit.2]
        · simp only [if_neg hsect,hptr]
          exact ⟨0,clust₁,sclust,s₁,cs₁,n₁,rfl,chain,hgrown.trans grown,room.trans hroom,
            hneeded,hhead₁,hcovered,fun _ => hlast,fun h => absurd (hmod ▸ h) hsect⟩
    · simp only [hstart]
      rw [if_neg (by simp)]
      have hstop : min ofs (fp.clusters cs 0 * v.bcs) = 0 := by rw [hnone,Nat.zero_mul,Nat.min_zero]
      rw [hstop]
      refine ⟨0,0,0,s',cs,0,rfl,hchain',List.prefix_rfl,rfl,fun _ => rfl,?_,Nat.zero_le _,?_,?_⟩
      · rw [hempty]
        rfl
      · exact fun h => absurd h (lt_irrefl 0)
      · exact fun h => absurd (Nat.zero_mod SS) h
  · rw [if_neg hofs]
    have hzero : ofs = 0 := by omega
    have hstop : min ofs (fp.clusters cs n * v.bcs) = 0 := by rw [hzero,Nat.zero_min]
    rw [hstop]
    exact ⟨0,fp.clust,fp.sclust,s,cs,n,rfl,hchain,List.prefix_rfl,rfl,fun _ => rfl,hfp.sclust,Nat.zero_le _,
      fun h => absurd h (lt_irrefl 0),fun h => absurd (Nat.zero_mod SS) h⟩

/-- A sector of the file is loaded, after the one in the buffer was written back. -/
theorem Sound.fillBuf (hv : v.Sound Chain) (hchain : Chain cs n s)
    (hdirty : fp.flag &&& FA_DIRTY ≠ 0 → ∃ c ∈ cs,∃ k < v.csize,fp.sect = v.clst2sect c + k)
    {c k : ℕ} (hc : c ∈ cs) (hk : k < v.csize) :
    ∃ flag sect buf s',v.fillBuf (v.clst2sect c + k) fp s =
      (.ok (),{ fp with flag := flag, sect := sect, buf := buf },s') := by
  obtain ⟨flag,s₁,hflush,hchain₁⟩ : ∃ flag s₁,
      v.flushBuf fp s = (.ok (),{ fp with flag := flag },s₁) ∧ Chain cs n s₁ := by
    rw [FatVolume.flushBuf]
    by_cases h : fp.flag &&& FA_DIRTY ≠ 0
    · obtain ⟨c',hc',k',hk',hsect⟩ := hdirty h
      obtain ⟨s₁,hwrite,hchain₁⟩ := hv.diskWrite hchain c' hc' k' hk' fp.buf
      rw [if_pos h,hsect,hwrite]
      exact ⟨_,s₁,rfl,hchain₁⟩
    · rw [if_neg h]
      exact ⟨fp.flag,s,rfl,hchain⟩
  obtain ⟨buf,s₂,hread,_⟩ := hv.diskRead hchain₁ c hc k hk fp.buf
  simp only [FatVolume.fillBuf,hflush,hread,if_true]
  exact ⟨flag,_,buf,s₂,rfl⟩

variable (v) in
/-- The last place that a seek can lead to: the end of the file, or of what the file can become. -/
def limit (fp : Fil Buf) (cs : List ℕ) (n : ℕ) : ℕ :=
  if fp.flag &&& FA_WRITE = 0 then fp.objsize else (cs.length + n) * v.bcs

/-- In read-only mode the offset is clipped, and the chain limits it otherwise. -/
theorem Stands.clip (hfp : v.Stands fp cs) (n ofs : ℕ) :
    ∃ ofs',(if ofs > fp.objsize ∧ fp.flag &&& FA_WRITE = 0 then fp.objsize else ofs) = ofs' ∧
      (fp.flag &&& FA_WRITE = 0 → ofs' ≤ fp.objsize) ∧
      min ofs' (fp.clusters cs n * v.bcs) = min ofs (v.limit fp cs n) := by
  have hcovered := hfp.covered
  by_cases hwrite : fp.flag &&& FA_WRITE = 0
  · refine ⟨min ofs fp.objsize,?_,fun _ => min_le_right _ _,?_⟩
    · by_cases hle : ofs > fp.objsize
      · rw [if_pos ⟨hle,hwrite⟩,min_eq_right hle.le]
      · rw [if_neg fun h => hle h.1,min_eq_left (not_lt.mp hle)]
    · rw [Fil.clusters,limit,if_pos hwrite,if_pos hwrite,min_assoc,min_eq_left hcovered]
  · refine ⟨ofs,if_neg fun h => hwrite h.2,fun h => absurd h hwrite,?_⟩
    rw [Fil.clusters,limit,if_neg hwrite,if_neg hwrite]

/-- `f_lseek` stops at the target or at the limit, and the file grows with it. -/
theorem Sound.fLseek (hv : v.Sound Chain) (hchain : Chain cs n s) (hfp : v.Stands fp cs)
    (hok : v.check fp s = .ok) (ofs : ℕ) :
    ∃ fp' s',v.fLseek ofs fp s = (.ok,fp',s') ∧ fp'.fptr = min ofs (v.limit fp cs n) ∧
      fp'.objsize = max fp.objsize fp'.fptr := by
  obtain ⟨ofs',hofs,hread,hmin⟩ := hfp.clip n ofs
  obtain ⟨nsect,clust,sclust,s₁,cs₁,n₁,hmove,hchain₁,hgrown,_,_,hmoved⟩ :=
    hv.moveTo hchain hfp hread
  rw [hmin] at hmove hmoved
  simp only [FatVolume.fLseek,hok,ne_eq,not_true_eq_false,if_false,hofs,hmove]
  generalize min ofs (v.limit fp cs n) = stop at hmove hmoved ⊢
  -- the file grows when the pointer is beyond its end
  obtain ⟨fp₂,hgrow,hptr,hsize,hold,hdirty⟩ : ∃ fp₂ : Fil Buf,
      (if stop > fp.objsize then { fp with
          objsize := stop, sclust := sclust, flag := fp.flag ||| FA_MODIFIED, fptr := stop,
          clust := clust }
        else { fp with fptr := stop, clust := clust, sclust := sclust }) = fp₂ ∧
      fp₂.fptr = stop ∧ fp₂.objsize = max fp.objsize stop ∧ fp₂.sect = fp.sect ∧
      (AnyFlag fp₂.flag FA_DIRTY → AnyFlag fp.flag FA_DIRTY) := by
    by_cases hlt : stop > fp.objsize
    · refine ⟨_,if_pos hlt,rfl,(max_eq_right hlt.le).symm,rfl,fun h => ?_⟩
      exact ((anyFlag_lor _ _ _).mp h).resolve_right (by decide)
    · exact ⟨_,if_neg hlt,rfl,(max_eq_left (not_lt.mp hlt)).symm,rfl,id⟩
  rw [hgrow,FatVolume.arrive]
  by_cases hload : fp₂.fptr % SS ≠ 0 ∧ nsect ≠ fp₂.sect
  · rw [if_pos hload]
    obtain ⟨c,hat,rfl⟩ := hmoved.sect (hptr ▸ hload.1)
    have hc := List.mem_of_getElem? hat
    have hk : stop % v.bcs / SS < v.csize := by
      refine Nat.div_lt_of_lt_mul ?_
      rw [Nat.mul_comm]
      exact Nat.mod_lt _ bcs_pos
    have hdirty₂ : fp₂.flag &&& FA_DIRTY ≠ 0 →
        ∃ c ∈ cs₁,∃ k < v.csize,fp₂.sect = v.clst2sect c + k := by
      intro h
      obtain ⟨c',hc',hrest⟩ := hfp.dirty (hdirty h)
      rw [hold]
      exact ⟨c',hgrown.subset hc',hrest⟩
    obtain ⟨flag,sect,buf,s',hfill⟩ := hv.fillBuf hchain₁ hdirty₂ hc hk
    rw [hfill]
    exact ⟨_,s',rfl,hptr,by rw [hptr]; exact hsize⟩
  · rw [if_neg hload]
    exact ⟨fp₂,s₁,rfl,hptr,by rw [hptr]; exact hsize⟩

end Seek

end FatVolume

end UcVfs.Fatfs
