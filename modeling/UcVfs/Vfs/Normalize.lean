import UcVfs.Framework.Components
import UcVfs.Vfs.Types

/-!
# Normalising a path

`vfs_normalize_path` with every access to `path` and `buf` checked: `none` is an access that is not
allowed, a count below zero, or a loop that needs more than `fuel` rounds.
-/

namespace UcVfs

open Framework

/-- The cursor into `path`, the two counters, and what the call has written to `buf`. -/
structure Norm where
  path : ℕ
  len : ℕ
  npathcomp : ℕ
  buf : ℕ → Option Char

/-- `path[i]`. -/
def CStr.read (p : CStr) (i : ℕ) : Option Char := if i ≤ p.length then some (p.at_ i) else none

/-- How a part of the main loop is left. -/
inductive Norm.Exit
  | next (s : Norm)
  | leave (s : Norm)
  | fail (res : Int) (s : Norm)

section Program

variable (path : CStr) (buflen : ℕ)

def bufWrite (buf : ℕ → Option Char) (i : ℕ) (c : Char) : Option (ℕ → Option Char) :=
  if i < buflen then some (Function.update buf i (some c)) else none

/-- `LOG_DBG` prints the first characters of `buf`. -/
def logBuf (buf : ℕ → Option Char) (n : ℕ) : Option Unit :=
  if (List.range n).all fun i => (buf i).isSome then some () else none

def skipSlashes : ℕ → ℕ → Option ℕ
  | 0,_ => none
  | fuel + 1,p => do
    let c ← path.read p
    if c = '/' then skipSlashes fuel (p + 1) else some p

/-- `while (len > 0 && buf[--len] != '/')`. -/
def dropComponent (buf : ℕ → Option Char) : ℕ → Option ℕ
  | 0 => some 0
  | len + 1 => do
    let c ← buf len
    if c ≠ '/' then dropComponent buf len else some len

def copyComponent : ℕ → Norm → Option Norm
  | 0,_ => none
  | fuel + 1,s =>
    if s.len < buflen then do
      let c ← path.read s.path
      if c ≠ '/' ∧ c ≠ nul then
        let buf ← bufWrite buflen s.buf s.len c
        copyComponent fuel { s with path := s.path + 1, len := s.len + 1, buf := buf }
      else
        some s
    else
      some s

/-- From the slash before a component on. -/
def appendComponent (fuel : ℕ) (s : Norm) : Option Norm.Exit := do
  let buf ← bufWrite buflen s.buf s.len '/'
  let s := { s with len := s.len + 1, buf := buf }
  if s.len ≥ buflen then
    some (.fail (-ENAMETOOLONG) s)
  else
    let c ← path.read s.path
    if c = nul then
      some (.leave s)
    else
      let s ← copyComponent path buflen fuel { s with npathcomp := s.npathcomp + 1 }
      if s.len ≥ buflen then some (.fail (-ENAMETOOLONG) s) else some (.next s)

/-- `path[0] == '.' && (path[1] == '/' || path[1] == '\0')`, where `c` is `path[0]`. -/
def atDotDot (c : Char) (p : ℕ) : Option Bool :=
  if c = '.' then (path.read (p + 1)).map fun c => decide (c = '/' ∨ c = nul) else some false

/-- The loop body after the slashes, at a dot that has been passed. -/
def afterDot (fuel : ℕ) (s : Norm) : Option Norm.Exit := do
  let c ← path.read s.path
  if c = '/' ∨ c = nul then
    some (.next s)
  else
    let up ← atDotDot path c s.path
    if up then
      if s.len = 0 then
        some (.fail (-EINVAL) s)
      else
        let len ← dropComponent s.buf s.len
        match s.npathcomp with
        | 0 => none
        | n + 1 => some (.next { s with path := s.path + 1, len := len, npathcomp := n })
    else
      appendComponent path buflen fuel s

def normBody (fuel : ℕ) (s : Norm) : Option Norm.Exit := do
  logBuf s.buf s.len
  let c ← path.read s.path
  if c = nul then
    some (.leave s)
  else
    let p ← skipSlashes path fuel s.path
    let c ← path.read p
    if c = '.' then
      afterDot path buflen fuel { s with path := p + 1 }
    else
      appendComponent path buflen fuel { s with path := p }

def normLoop : ℕ → Norm → Option Norm.Exit
  | 0,_ => none
  | fuel + 1,s =>
    if s.path ≤ path.length then do
      match ← normBody path buflen fuel s with
      | .next s => normLoop fuel s
      | exit => some exit
    else
      some (.leave s)

/-- Returns what the call has written to `buf` as well. -/
def vfsNormalizePath (fuel : ℕ) : Option (Int × (ℕ → Option Char)) :=
  if 0 ≥ buflen then
    some (-ENAMETOOLONG,fun _ => none)
  else do
    match ← normLoop path buflen fuel ⟨0,0,0,fun _ => none⟩ with
    | .next _ => none
    | .fail res s => some (res,s.buf)
    | .leave s =>
      let npathcomp := if s.len = 1 then 1 else s.npathcomp
      let buf ← bufWrite buflen s.buf s.len nul
      logBuf buf (s.len + 1)
      some (npathcomp,buf)

end Program

/-- What lies ahead of a cursor. -/
def CStr.From (path : CStr) (p : ℕ) (rest : List Char) : Prop :=
  ∃ before,path.chars = before ++ rest ∧ before.length = p

/-- The first characters of `buf`, all written. -/
def Written (buf : ℕ → Option Char) (out : List Char) : Prop :=
  ∀ i (h : i < out.length),buf i = some out[i]

section Access

variable {path : CStr} {p : ℕ} {rest out : List Char} {buf : ℕ → Option Char}

theorem CStr.From.read (h : path.From p rest) : path.read p = some (rest.headD nul) := by
  obtain ⟨before,hchars,rfl⟩ := h
  have hle : before.length ≤ path.length := by
    rw [CStr.length,hchars,List.length_append]
    omega
  rw [CStr.read,if_pos hle,CStr.at_,hchars]
  cases rest with
  | nil => simp
  | cons c rest => simp

theorem CStr.From.succ {c : Char} (h : path.From p (c :: rest)) : path.From (p + 1) rest := by
  obtain ⟨before,hchars,rfl⟩ := h
  exact ⟨before ++ [c],by simpa using hchars,by simp⟩

theorem CStr.From.le (h : path.From p rest) : p ≤ path.length := by
  obtain ⟨before,hchars,rfl⟩ := h
  rw [CStr.length,hchars,List.length_append]
  omega

theorem CStr.From.noNul (h : path.From p rest) : nul ∉ rest := by
  obtain ⟨before,hchars,_⟩ := h
  intro hmem
  exact path.noNul (by rw [hchars]; exact List.mem_append_right _ hmem)

theorem CStr.from_start (path : CStr) : path.From 0 path.chars := ⟨[],rfl,rfl⟩

theorem written_nil : Written buf [] := fun _ h => absurd h (Nat.not_lt_zero _)

theorem Written.snoc (h : Written buf out) (c : Char) :
    Written (Function.update buf out.length (some c)) (out ++ [c]) := by
  intro i hi
  by_cases hlt : i < out.length
  · rw [Function.update_of_ne (Nat.ne_of_lt hlt),List.getElem_append_left hlt]
    exact h i hlt
  · rw [List.length_append,List.length_singleton] at hi
    obtain rfl : i = out.length := by omega
    rw [Function.update_self,List.getElem_concat_length rfl]

theorem Written.initial {more : List Char} (h : Written buf (out ++ more)) : Written buf out := by
  intro i hi
  rw [h i (by rw [List.length_append]; omega),List.getElem_append_left hi]

theorem Written.logBuf (h : Written buf out) : UcVfs.logBuf buf out.length = some () := by
  refine if_pos (List.all_eq_true.mpr ?_)
  intro i hi
  rw [h i (List.mem_range.mp hi)]
  rfl

theorem bufWrite_ok {buflen i : ℕ} (h : i < buflen) (c : Char) :
    bufWrite buflen buf i c = some (Function.update buf i (some c)) := if_pos h

end Access

section Loops

variable {path : CStr}

theorem skipSlashes_spec {rest : List Char} {p fuel : ℕ} (h : path.From p rest)
    (hfuel : rest.length < fuel) :
    ∃ q,skipSlashes path fuel p = some q ∧ path.From q (rest.dropWhile (decide <| · = '/')) := by
  induction rest generalizing p fuel with
  | nil =>
    obtain ⟨fuel,rfl⟩ := Nat.exists_eq_succ_of_ne_zero (Nat.ne_of_gt hfuel)
    refine ⟨p,?_,h⟩
    simp [skipSlashes,h.read,nul]
  | cons c rest ih =>
    obtain ⟨fuel,rfl⟩ := Nat.exists_eq_succ_of_ne_zero (Nat.ne_of_gt (Nat.zero_lt_of_lt hfuel))
    by_cases hc : c = '/'
    · obtain ⟨q,hq,hfrom⟩ := ih h.succ (Nat.lt_of_succ_lt_succ hfuel)
      refine ⟨q,?_,?_⟩
      · simp [skipSlashes,h.read,hc,hq]
      · rwa [List.dropWhile_cons_of_pos (by simpa using hc)]
    · refine ⟨p,?_,?_⟩
      · simp [skipSlashes,h.read,hc]
      · rwa [List.dropWhile_cons_of_neg (by simpa using hc)]

/-- The last component and its slash are taken off. -/
theorem dropComponent_spec {buf : ℕ → Option Char} {out c : List Char} (hc : '/' ∉ c)
    (h : Written buf (out ++ '/' :: c)) :
    dropComponent buf (out ++ '/' :: c).length = some out.length := by
  induction c using List.reverseRecOn with
  | nil =>
    have hslash := h out.length (by simp)
    rw [List.length_append,List.length_singleton,dropComponent,hslash]
    simp
  | append_singleton c x ih =>
    have hx : x ≠ '/' := fun he => hc (by simp [he])
    have hpre : out ++ '/' :: (c ++ [x]) = (out ++ '/' :: c) ++ [x] := by simp
    rw [hpre] at h ⊢
    have hlast := h (out ++ '/' :: c).length (by simp)
    rw [List.length_append,List.length_singleton,dropComponent,hlast]
    simp only [List.getElem_concat_length rfl]
    have hrest := ih (fun hm => hc (by simp [hm])) h.initial
    simpa [hx] using hrest

/-- A component is copied to its end, or as far as there is room. -/
theorem copyComponent_spec (buflen n : ℕ) {c t out : List Char} {p fuel : ℕ}
    {buf : ℕ → Option Char}
    (hfrom : path.From p (c ++ t)) (hc : '/' ∉ c) (ht : t = [] ∨ t.head? = some '/')
    (hbuf : Written buf out) (hfuel : c.length < fuel) :
    (out.length + c.length < buflen →
      ∃ q buf',copyComponent path buflen fuel ⟨p,out.length,n,buf⟩ =
          some ⟨q,(out ++ c).length,n,buf'⟩ ∧ path.From q t ∧ Written buf' (out ++ c)) ∧
    (buflen ≤ out.length + c.length →
      ∃ s,copyComponent path buflen fuel ⟨p,out.length,n,buf⟩ = some s ∧ buflen ≤ s.len) := by
  induction c generalizing p out buf fuel with
  | nil =>
    obtain ⟨fuel,rfl⟩ := Nat.exists_eq_succ_of_ne_zero (Nat.ne_of_gt hfuel)
    have hstop : ¬(t.headD nul ≠ '/' ∧ t.headD nul ≠ nul) := by
      cases t with
      | nil => simp
      | cons x t => simp_all
    constructor
    · intro hroom
      have hlt : out.length < buflen := by simpa using hroom
      refine ⟨p,buf,?_,hfrom,by rwa [List.append_nil]⟩
      rw [copyComponent,if_pos hlt,hfrom.read]
      simp only [Option.bind_eq_bind,Option.bind_some,List.nil_append]
      rw [if_neg hstop,List.append_nil]
    · intro hfull
      have hge : ¬out.length < buflen := by simpa using hfull
      exact ⟨_,if_neg hge,by simpa using hfull⟩
  | cons x c ih =>
    obtain ⟨fuel,rfl⟩ := Nat.exists_eq_succ_of_ne_zero (Nat.ne_of_gt (Nat.zero_lt_of_lt hfuel))
    by_cases hlt : out.length < buflen
    · have hx : x ≠ '/' ∧ x ≠ nul :=
        ⟨fun he => hc (by simp [he]),fun he => hfrom.noNul (by simp [he])⟩
      have hrest := ih hfrom.succ (fun hm => hc (List.mem_cons_of_mem _ hm)) (hbuf.snoc x)
        (Nat.lt_of_succ_lt_succ hfuel)
      have hstep : copyComponent path buflen (fuel + 1) ⟨p,out.length,n,buf⟩ =
          copyComponent path buflen fuel ⟨p + 1,(out ++ [x]).length,n,
            Function.update buf out.length (some x)⟩ := by
        rw [copyComponent,if_pos hlt,hfrom.read]
        simp only [Option.bind_eq_bind,Option.bind_some,List.cons_append,List.headD_cons]
        rw [if_pos hx,bufWrite_ok hlt]
        simp
      have hlen : (out ++ [x]).length + c.length = out.length + (x :: c).length := by
        simp only [List.length_append,List.length_cons,List.length_nil]
        omega
      rw [hstep,← hlen]
      rw [show out ++ x :: c = out ++ [x] ++ c by simp]
      exact hrest
    · refine ⟨fun hroom => by omega,fun _ => ⟨_,if_neg hlt,?_⟩⟩
      exact Nat.le_of_not_lt hlt

end Loops

def isDot (c : List Char) : Bool := c = ['.']

def isDotDot (c : List Char) : Bool := c = ['.','.']

/-- What is copied of a component: a leading dot has been passed by then. -/
def stored (c : List Char) : List Char := if c.head? = some '.' then c.tail else c

/-- What a component does to those that are kept, when their text has to be shorter than
`buflen`. -/
def keepOne (buflen : ℕ) (kept : List (List Char)) (c : List Char) : Except Int (List (List Char)) :=
  if isDot c then
    .ok kept
  else if isDotDot c then
    if kept = [] then .error (-EINVAL) else .ok kept.dropLast
  else if buflen ≤ (render '/' (kept ++ [stored c])).length then
    .error (-ENAMETOOLONG)
  else
    .ok (kept ++ [stored c])

def keepComponents (buflen : ℕ) : List (List Char) → List (List Char) → Except Int (List (List Char))
  | [],kept => .ok kept
  | c :: cs,kept =>
    match keepOne buflen kept c with
    | .error res => .error res
    | .ok kept => keepComponents buflen cs kept

/-- The text and the number of components that the loop leaves, from what lies ahead and what has
been kept. -/
def normText (buflen : ℕ) (rest : List Char) (kept : List (List Char)) :
    Except Int (List Char × ℕ) :=
  match keepComponents buflen (components '/' rest) kept with
  | .error res => .error res
  | .ok kept =>
    if trails '/' rest then
      if buflen ≤ (render '/' kept).length + 1 then .error (-ENAMETOOLONG)
      else .ok (render '/' kept ++ ['/'],kept.length)
    else
      .ok (render '/' kept,kept.length)

/-- The loop is left as the text says. -/
def Leaves (buflen : ℕ) : Norm.Exit → Except Int (List Char × ℕ) → Prop
  | .fail res _,.error res' => res = res'
  | .leave s,.ok (out,n) =>
    s.len = out.length ∧ s.npathcomp = n ∧ Written s.buf out ∧ out.length < buflen
  | _,_ => False

/-- The state at the head of the main loop: `rest` lies ahead and `kept` is in `buf`. -/
structure Ready (path : CStr) (buflen : ℕ) (rest : List Char) (kept : List (List Char)) (s : Norm) :
    Prop where
  ahead : path.From s.path rest
  len : s.len = (render '/' kept).length
  count : s.npathcomp = kept.length
  written : Written s.buf (render '/' kept)
  room : (render '/' kept).length < buflen
  parts : ∀ c ∈ kept,IsComponent '/' c

/-- A part of the loop has dealt with one component: `rest` is left, and `kept` is kept. -/
def Follows (path : CStr) (buflen : ℕ) (rest : List Char) : Norm.Exit →
    Except Int (List (List Char)) → Prop
  | .fail res _,.error res' => res = res'
  | .next s,.ok kept => Ready path buflen rest kept s
  | _,_ => False

section Body

variable {path : CStr} {buflen : ℕ} {c t : List Char} {kept : List (List Char)} {s : Norm} {fuel : ℕ}

theorem appendComponent_spec (h : Ready path buflen (c ++ t) kept s) (hc : IsComponent '/' c)
    (ht : t = [] ∨ t.head? = some '/') (hfuel : c.length < fuel) :
    ∃ exit,appendComponent path buflen fuel s = some exit ∧
      Follows path buflen t exit
        (if buflen ≤ (render '/' (kept ++ [c])).length then .error (-ENAMETOOLONG)
          else .ok (kept ++ [c])) := by
  obtain ⟨p,len,n,buf⟩ := s
  obtain ⟨hfrom,rfl,hcount,hbuf,hroom,hparts⟩ := h
  have hlen : (render '/' (kept ++ [c])).length = (render '/' kept ++ ['/']).length + c.length := by
    rw [render_concat]
    simp only [List.length_append,List.length_cons,List.length_nil]
    omega
  have hslash : (render '/' kept ++ ['/']).length = (render '/' kept).length + 1 := by simp
  have hx : c.headD nul ≠ nul := by
    obtain ⟨x,c',rfl⟩ := List.exists_cons_of_ne_nil hc.1
    intro he
    refine hfrom.noNul (List.mem_append_left _ ?_)
    rw [← show x = nul from he]
    exact List.mem_cons_self
  have hread : path.read p = some (c.headD nul) := by
    obtain ⟨x,c',rfl⟩ := List.exists_cons_of_ne_nil hc.1
    exact hfrom.read
  have hcopy := copyComponent_spec buflen (n + 1) hfrom hc.2 ht (hbuf.snoc '/') hfuel
  rw [hslash] at hcopy hlen
  by_cases hfull : buflen ≤ (render '/' (kept ++ [c])).length
  · rw [if_pos hfull]
    by_cases hshort : buflen ≤ (render '/' kept).length + 1
    · refine ⟨.fail (-ENAMETOOLONG) ⟨p,(render '/' kept).length + 1,n,
        Function.update buf (render '/' kept).length (some '/')⟩,?_,rfl⟩
      simp only [appendComponent,bufWrite_ok hroom,Option.bind_eq_bind,Option.bind_some]
      exact if_pos hshort
    · obtain ⟨s,hs,hlens⟩ := hcopy.2 (by omega)
      refine ⟨.fail (-ENAMETOOLONG) s,?_,rfl⟩
      simp only [appendComponent,bufWrite_ok hroom,Option.bind_eq_bind,Option.bind_some,
        if_neg hshort,hread,if_neg hx,hs]
      exact if_pos hlens
  · rw [if_neg hfull]
    obtain ⟨q,buf',hs,hq,hbuf'⟩ := hcopy.1 (by omega)
    have hout : render '/' kept ++ ['/'] ++ c = render '/' (kept ++ [c]) := by
      rw [render_concat]
      simp
    rw [hout] at hs hbuf'
    have hlong : ¬(render '/' kept).length + 1 ≥ buflen := by omega
    refine ⟨.next ⟨q,(render '/' (kept ++ [c])).length,n + 1,buf'⟩,?_,?_⟩
    · simp only [appendComponent,bufWrite_ok hroom,Option.bind_eq_bind,Option.bind_some,
        if_neg hlong,hread,if_neg hx,hs]
      exact if_neg hfull
    · have hn : n = kept.length := hcount
      refine ⟨hq,rfl,by simp [hn],hbuf',Nat.lt_of_not_le hfull,?_⟩
      simpa using fun d hd => hd.elim (hparts d) (fun he => he ▸ hc)

/-- A dot has been passed: the component was that dot, it goes up, or the dot is lost. -/
theorem afterDot_spec (h : Ready path buflen (c ++ t) kept s) (hc : '/' ∉ c)
    (ht : t = [] ∨ t.head? = some '/') (hfuel : c.length < fuel) :
    ∃ exit,afterDot path buflen fuel s = some exit ∧
      Follows path buflen t exit (keepOne buflen kept ('.' :: c)) := by
  have hend : t.headD nul = '/' ∨ t.headD nul = nul := by
    cases t with
    | nil => exact Or.inr rfl
    | cons x t => exact Or.inl (by simpa using ht)
  have hread := h.ahead.read
  cases c with
  | nil =>
    refine ⟨.next s,?_,h⟩
    rw [List.nil_append] at hread
    simp only [afterDot,hread,Option.bind_eq_bind,Option.bind_some]
    exact if_pos hend
  | cons x c =>
    have hx : ¬(x = '/' ∨ x = nul) := by
      rintro (rfl | rfl)
      · exact hc List.mem_cons_self
      · exact h.ahead.noNul List.mem_cons_self
    have hread' := h.ahead.succ.read
    have hup : atDotDot path x s.path = some (isDotDot ('.' :: x :: c)) := by
      by_cases hdot : x = '.'
      · rw [atDotDot,if_pos hdot,hread',Option.map_some,hdot]
        cases c with
        | nil => simpa [isDotDot] using hend
        | cons y c =>
          have hy : ¬(y = '/' ∨ y = nul) := by
            rintro (rfl | rfl)
            · exact hc (List.mem_cons_of_mem _ List.mem_cons_self)
            · exact h.ahead.succ.noNul List.mem_cons_self
          simpa [isDotDot] using hy
      · simp [atDotDot,isDotDot,hdot]
    have hbody : afterDot path buflen fuel s =
        if isDotDot ('.' :: x :: c) then
          if s.len = 0 then some (.fail (-EINVAL) s)
          else
            (dropComponent s.buf s.len).bind fun len =>
              match s.npathcomp with
              | 0 => none
              | n + 1 => some (.next { s with path := s.path + 1, len := len, npathcomp := n })
        else appendComponent path buflen fuel s := by
      rw [afterDot,hread]
      simp only [Option.bind_eq_bind,Option.bind_some,List.cons_append,List.headD_cons]
      rw [if_neg hx,hup]
      rfl
    rw [hbody]
    by_cases hcase : isDotDot ('.' :: x :: c) = true
    · obtain ⟨rfl,rfl⟩ : x = '.' ∧ c = [] := by simpa [isDotDot] using hcase
      have hkeep : keepOne buflen kept ['.','.'] =
          if kept = [] then .error (-EINVAL) else .ok kept.dropLast := rfl
      rw [if_pos hcase,hkeep]
      cases kept using List.reverseRecOn with
      | nil =>
        exact ⟨.fail (-EINVAL) s,if_pos h.len,rfl⟩
      | append_singleton kept d =>
        have hpos : s.len ≠ 0 := by
          rw [h.len,render_concat,List.length_append,List.length_cons]
          omega
        have hcount : s.npathcomp = kept.length + 1 := by rw [h.count,List.length_append]; rfl
        have hwritten := h.written
        rw [render_concat] at hwritten
        have hdrop := dropComponent_spec (h.parts d (by simp)).2 hwritten
        rw [← render_concat,← h.len] at hdrop
        rw [if_neg hpos,hdrop,hcount,if_neg (by simp),List.dropLast_concat]
        refine ⟨_,rfl,h.ahead.succ,rfl,rfl,hwritten.initial,?_,?_⟩
        · have hroom := h.room
          rw [render_concat,List.length_append] at hroom
          omega
        · exact fun e he => h.parts e (List.mem_append_left _ he)
    · have hkeep : keepOne buflen kept ('.' :: x :: c) =
          if buflen ≤ (render '/' (kept ++ [x :: c])).length then .error (-ENAMETOOLONG)
          else .ok (kept ++ [x :: c]) := by
        rw [keepOne,if_neg (by simp [isDot]),if_neg hcase]
        rfl
      obtain ⟨exit,hexit,hfollows⟩ := appendComponent_spec h ⟨List.cons_ne_nil _ _,hc⟩ ht hfuel
      exact ⟨exit,by rw [if_neg hcase,hexit],hkeep ▸ hfollows⟩

/-- Slashes at the end of `path` leave one in `buf`. -/
theorem appendComponent_end (fuel : ℕ) (h : Ready path buflen [] kept s) :
    ∃ exit,appendComponent path buflen fuel s = some exit ∧
      Leaves buflen exit
        (if buflen ≤ (render '/' kept).length + 1 then .error (-ENAMETOOLONG)
          else .ok (render '/' kept ++ ['/'],kept.length)) := by
  have hwrite : bufWrite buflen s.buf s.len '/' = some (Function.update s.buf s.len (some '/')) :=
    bufWrite_ok (by rw [h.len]; exact h.room) '/'
  have hread : path.read s.path = some nul := h.ahead.read
  have hwritten := h.written.snoc '/'
  rw [← h.len] at hwritten
  by_cases hshort : buflen ≤ (render '/' kept).length + 1
  · have hlong : s.len + 1 ≥ buflen := by rw [h.len]; exact hshort
    refine ⟨.fail (-ENAMETOOLONG)
      { s with len := s.len + 1, buf := Function.update s.buf s.len (some '/') },?_,?_⟩
    · simp only [appendComponent,hwrite,Option.bind_eq_bind,Option.bind_some]
      exact if_pos hlong
    · rw [if_pos hshort]
      rfl
  · have hlong : ¬s.len + 1 ≥ buflen := by rw [h.len]; exact hshort
    refine ⟨.leave { s with len := s.len + 1, buf := Function.update s.buf s.len (some '/') },?_,?_⟩
    · simp only [appendComponent,hwrite,Option.bind_eq_bind,Option.bind_some,if_neg hlong,hread]
      rfl
    · rw [if_neg hshort]
      have hlen : (render '/' kept ++ ['/']).length = (render '/' kept).length + 1 := by simp
      refine ⟨?_,h.count,hwritten,?_⟩
      · rw [hlen,← h.len]
      · rw [hlen]
        exact Nat.lt_of_not_le hshort

/-- Past the slashes, at a component. -/
theorem component_spec (h : Ready path buflen (c ++ t) kept s) (hc : IsComponent '/' c)
    (ht : t = [] ∨ t.head? = some '/') (hfuel : c.length < fuel) :
    ∃ exit,(if c.headD nul = '.' then afterDot path buflen fuel { s with path := s.path + 1 }
        else appendComponent path buflen fuel s) = some exit ∧
      Follows path buflen t exit (keepOne buflen kept c) := by
  obtain ⟨x,c,rfl⟩ := List.exists_cons_of_ne_nil hc.1
  by_cases hx : x = '.'
  · obtain rfl := hx
    rw [List.headD_cons,if_pos rfl]
    have hs : Ready path buflen (c ++ t) kept { s with path := s.path + 1 } :=
      ⟨h.ahead.succ,h.len,h.count,h.written,h.room,h.parts⟩
    exact afterDot_spec hs (fun hm => hc.2 (List.mem_cons_of_mem _ hm)) ht (Nat.lt_of_succ_lt hfuel)
  · have hkeep : keepOne buflen kept (x :: c) =
        if buflen ≤ (render '/' (kept ++ [x :: c])).length then .error (-ENAMETOOLONG)
        else .ok (kept ++ [x :: c]) := by
      simp [keepOne,isDot,isDotDot,stored,hx]
    rw [List.headD_cons,if_neg hx,hkeep]
    exact appendComponent_spec h hc ht hfuel

/-- One round of the main loop. -/
theorem normBody_spec {rest : List Char} (h : Ready path buflen rest kept s)
    (hfuel : rest.length < fuel) :
    ∃ exit,normBody path buflen fuel s = some exit ∧
      (Leaves buflen exit (normText buflen rest kept) ∨
        ∃ s' rest' kept',exit = .next s' ∧ Ready path buflen rest' kept' s' ∧
          rest'.length < rest.length ∧ normText buflen rest kept = normText buflen rest' kept') := by
  have hlog : logBuf s.buf s.len = some () := by rw [h.len]; exact h.written.logBuf
  have hread := h.ahead.read
  by_cases hrest : rest = []
  · obtain rfl := hrest
    refine ⟨.leave s,?_,Or.inl ⟨h.len,h.count,h.written,h.room⟩⟩
    simp only [normBody,hlog,Option.bind_eq_bind,Option.bind_some,hread]
    rfl
  · have hnul : rest.headD nul ≠ nul := by
      obtain ⟨x,rest,rfl⟩ := List.exists_cons_of_ne_nil hrest
      intro he
      refine h.ahead.noNul ?_
      rw [← show x = nul from he]
      exact List.mem_cons_self
    obtain ⟨q,hskip,hq⟩ := skipSlashes_spec h.ahead hfuel
    have hs : Ready path buflen (rest.dropWhile (decide <| · = '/')) kept { s with path := q } :=
      ⟨hq,h.len,h.count,h.written,h.room,h.parts⟩
    have hbody : normBody path buflen fuel s =
        if (rest.dropWhile (decide <| · = '/')).headD nul = '.' then
          afterDot path buflen fuel { s with path := q + 1 }
        else appendComponent path buflen fuel { s with path := q } := by
      simp only [normBody,hlog,Option.bind_eq_bind,Option.bind_some,hread,hskip,hq.read]
      exact if_neg hnul
    rw [hbody]
    rcases text_cases '/' rest with hall | ⟨c,t,hc,ht,hct⟩
    · have htext : normText buflen rest kept =
          if buflen ≤ (render '/' kept).length + 1 then .error (-ENAMETOOLONG)
          else .ok (render '/' kept ++ ['/'],kept.length) := by
        rw [normText,← components_dropWhile,hall,components_nil,keepComponents,
          trails_separators hall hrest]
        exact if_pos rfl
      rw [hall] at hs ⊢
      obtain ⟨exit,hexit,hleaves⟩ := appendComponent_end fuel hs
      exact ⟨exit,hexit,Or.inl (htext ▸ hleaves)⟩
    · rw [hct] at hs ⊢
      have hlen : c.length + t.length ≤ rest.length := by
        rw [← List.length_append,← hct]
        exact (List.dropWhile_suffix _).length_le
      have hpos : 0 < c.length := List.length_pos_of_ne_nil hc.1
      have hhead : (c ++ t).headD nul = c.headD nul := by
        obtain ⟨x,c,rfl⟩ := List.exists_cons_of_ne_nil hc.1
        rfl
      obtain ⟨exit,hexit,hfollows⟩ := component_spec hs hc ht (show c.length < fuel by omega)
      rw [hhead]
      refine ⟨exit,hexit,?_⟩
      have htext : normText buflen rest kept =
          match keepOne buflen kept c with
          | .error res => .error res
          | .ok kept => normText buflen t kept := by
        rw [normText,components_skip hc ht hct,trails_skip hc hct,keepComponents]
        cases keepOne buflen kept c with
        | error res => rfl
        | ok kept => rfl
      rw [htext]
      cases hone : keepOne buflen kept c with
      | error res =>
        rw [hone] at hfollows
        cases exit with
        | fail res' s' => exact Or.inl hfollows
        | next s' => exact hfollows.elim
        | leave s' => exact hfollows.elim
      | ok kept' =>
        rw [hone] at hfollows
        cases exit with
        | fail res' s' => exact hfollows.elim
        | next s' => exact Or.inr ⟨s',t,kept',rfl,hfollows,by omega,rfl⟩
        | leave s' => exact hfollows.elim

/-- The main loop, from any of its rounds on. -/
theorem normLoop_spec {rest : List Char} (h : Ready path buflen rest kept s)
    (hfuel : rest.length + 1 < fuel) :
    ∃ exit,normLoop path buflen fuel s = some exit ∧
      Leaves buflen exit (normText buflen rest kept) := by
  induction fuel generalizing rest kept s with
  | zero => exact absurd hfuel (Nat.not_lt_zero _)
  | succ fuel ih =>
    obtain ⟨exit,hexit,hcases⟩ := normBody_spec h (Nat.lt_of_succ_lt_succ hfuel)
    rw [normLoop,if_pos h.ahead.le,hexit]
    rcases hcases with hleaves | ⟨s',rest',kept',rfl,hs',hless,htext⟩
    · cases exit with
      | next s' => exact hleaves.elim
      | leave s' => exact ⟨_,rfl,hleaves⟩
      | fail res s' => exact ⟨_,rfl,hleaves⟩
    · rw [htext]
      exact ih hs' (by omega)

end Body

/-- The result, with the special case for `/`. -/
def normResult : Except Int (List Char × ℕ) → Int
  | .error res => res
  | .ok (out,n) => if out.length = 1 then 1 else n

/-- The whole call: it comes to an end, with the text and the count that the components give. -/
theorem vfsNormalizePath_spec (path : CStr) {buflen fuel : ℕ} (hpos : 0 < buflen)
    (hfuel : path.length + 1 < fuel) :
    ∃ buf,vfsNormalizePath path buflen fuel =
        some (normResult (normText buflen path.chars []),buf) ∧
      ∀ out n,normText buflen path.chars [] = .ok (out,n) →
        Written buf (out ++ [nul]) ∧ out.length < buflen := by
  have hready : Ready path buflen path.chars [] ⟨0,0,0,fun _ => none⟩ := by
    refine ⟨path.from_start,rfl,rfl,written_nil,hpos,?_⟩
    exact fun c hc => absurd hc List.not_mem_nil
  obtain ⟨exit,hexit,hleaves⟩ := normLoop_spec hready hfuel
  rw [vfsNormalizePath,if_neg (Nat.not_le.mpr hpos),hexit]
  cases htext : normText buflen path.chars [] with
  | error res =>
    rw [htext] at hleaves
    cases exit with
    | fail res' s =>
      obtain rfl : res' = res := hleaves
      exact ⟨s.buf,rfl,fun out n hok => nomatch hok⟩
    | next s => exact hleaves.elim
    | leave s => exact hleaves.elim
  | ok r =>
    obtain ⟨out,n⟩ := r
    rw [htext] at hleaves
    cases exit with
    | fail res s => exact hleaves.elim
    | next s => exact hleaves.elim
    | leave s =>
      obtain ⟨hlen,rfl,hwritten,hroom⟩ := hleaves
      have hend := hwritten.snoc nul
      have hlog := hend.logBuf
      rw [List.length_append,List.length_singleton] at hlog
      refine ⟨Function.update s.buf out.length (some nul),?_,?_⟩
      · simp only [Option.bind_eq_bind,Option.bind_some,hlen,bufWrite_ok hroom,hlog,normResult]
        split <;> rfl
      · rintro out' n' hok
        obtain ⟨rfl,rfl⟩ := Prod.mk.inj (Except.ok.inj hok)
        exact ⟨hend,hroom⟩

end UcVfs
