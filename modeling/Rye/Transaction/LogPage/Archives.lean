import Mathlib.Algebra.Ring.Int.Defs
import Mathlib.Algebra.Ring.Nat
import Mathlib.Data.Int.Order.Basic
import Mathlib.Order.Nat

/-!
# Log archives

The pages of the log are archived in order.  Archive number `n` is described by its header: the
first page and the number of pages.  A page is looked for in the archives from a guessed number
on, towards older or newer ones.
-/

namespace Rye.Transaction.LogPage

open List

/-- `struct log_arv_header`. -/
structure ArvHeader where
  arvNum : Int
  fpageid : Int
  npages : Int
deriving DecidableEq, Repr

namespace ArvHeader

def lastPageid (h : ArvHeader) : Int :=
  h.fpageid + h.npages - 1

def holds (h : ArvHeader) (pageid : Int) : Prop :=
  h.fpageid <= pageid ∧ pageid <= h.lastPageid

instance (h : ArvHeader) (pageid : Int) : Decidable (h.holds pageid) :=
  inferInstanceAs (Decidable (_ ∧ _))

end ArvHeader

/-!
## Looking for a page
-/

/-- What comes of the attempt to mount an archive: the prompt was answered with quit, the archive
is not available, or its header. -/
inductive Mount where
  | quit
  | missing
  | header (hdr : ArvHeader)
deriving DecidableEq, Repr

/-- What a search sees: the archive that is still mounted, the guess made from the log
information, and the archives. -/
structure ArchiveView where
  cached : Option ArvHeader
  guess : Int
  mount : Int -> Mount

structure Search where
  arvHdr : Option ArvHeader
  arvNum : Int
  hasGuessArvnum : Bool
  direction : Int
  firstTime : Bool
deriving DecidableEq, Repr

section

variable (nxarvNum : Int) (view : ArchiveView) (pageid : Int)

/-- Archives below the next one are available unless they are known to be missing. -/
def mountAvailable (arvNum : Int) : Mount :=
  if arvNum >= nxarvNum ∨ arvNum < 0 then .missing else view.mount arvNum

/-- Without a mounted archive the search begins with the guess. -/
def Search.start : Search :=
  match view.cached with
  | some hdr => ⟨some hdr, hdr.arvNum, false, 0, true⟩
  | none =>
    let arvHdr :=
      match mountAvailable nxarvNum view view.guess with
      | .header hdr => some hdr
      | _ => none
    ⟨arvHdr, view.guess, true, 0, true⟩

/-- Define the direction by looking for the desired page. -/
def Search.direct (s : Search) : Search :=
  if s.direction = 0 then
    match s.arvHdr with
    | some hdr => { s with direction := if pageid < hdr.fpageid then -1 else 1 }
    | none =>
      -- start looking from the last archive
      if s.firstTime then s else { s with arvNum := nxarvNum, direction := -1 }
  else s

def Search.move (s : Search) : Search :=
  match s.arvHdr with
  | some hdr =>
    if s.direction = -1 then
      { s with arvNum := if pageid < hdr.fpageid then s.arvNum - 1 else -1 }
    else { s with arvNum := if pageid > hdr.lastPageid then s.arvNum + 1 else nxarvNum }
  | none =>
    -- not increased the first time, so that the guess can be asked for
    if s.firstTime then s else { s with arvNum := s.arvNum + s.direction }

def Search.choose (s : Search) : Option Search :=
  if s.hasGuessArvnum then
    let s := ((s.direct nxarvNum pageid).move nxarvNum pageid)
    if s.arvNum < 0 ∨ s.arvNum = nxarvNum then none else some { s with firstTime := false }
  else some { s with hasGuessArvnum := true, arvNum := view.guess }

inductive Round where
  | found (arvNum : Int) (hdr : ArvHeader)
  | failed
  | again (s : Search)
deriving DecidableEq, Repr

def Search.mount (s : Search) : Round :=
  match mountAvailable nxarvNum view s.arvNum with
  | .quit => .failed
  | .missing => .again { s with arvHdr := none }
  | .header hdr => .again { s with arvHdr := some hdr }

def Search.next (s : Search) : Round :=
  match s.choose nxarvNum view pageid with
  | none => .failed
  | some s => s.mount nxarvNum view

def Search.round (s : Search) : Round :=
  match s.arvHdr with
  | some hdr => if hdr.holds pageid then .found s.arvNum hdr else s.next nxarvNum view pageid
  | none => s.next nxarvNum view pageid

/-- `logpb_fetch_from_archive`: the number and the header of the archive that has the page. -/
def fetchLoop : Nat -> Search -> Option (Int × ArvHeader)
  | 0, _ => none
  | fuel + 1, s =>
    match s.round nxarvNum view pageid with
    | .found arvNum hdr => some (arvNum, hdr)
    | .failed => none
    | .again s => fetchLoop fuel s

/-- The loop passes every number at most once in each direction. -/
def fetchFromArchive : Option (Int × ArvHeader) :=
  if view.cached = none ∧ nxarvNum <= 0 then none
  else fetchLoop nxarvNum view pageid (2 * nxarvNum.toNat + 4) (.start nxarvNum view)

/-- The number of the archive that has the page, or -1. -/
def getArchiveNumber : Int :=
  match fetchFromArchive nxarvNum view pageid with
  | none => -1
  | some found => if found.1 < 0 then 0 else found.1

end

/-!
## Archives and what a search sees of them
-/

/-- The archives are numbered from zero, are not empty and follow each other without a gap up to
the page `next`. -/
inductive Archived (start : Int) : List ArvHeader -> Int -> Prop
  | nil : Archived start [] start
  | snoc {arvs : List ArvHeader} {next npages : Int} :
      Archived start arvs next -> 0 < npages ->
        Archived start (arvs ++ [⟨arvs.length, next, npages⟩]) (next + npages)

/-- The mounted archive and the archives that can be mounted are archives of the list. -/
structure ArchiveView.Sees (view : ArchiveView) (arvs : List ArvHeader) : Prop where
  cached : forall hdr, view.cached = some hdr -> hdr ∈ arvs
  mount : forall arvNum hdr, view.mount arvNum = .header hdr -> hdr ∈ arvs ∧ hdr.arvNum = arvNum

section

variable {start next : Int} {arvs : List ArvHeader}

section

variable (h : Archived start arvs next)
include h

theorem Archived.start_le : start <= next := by
  induction h with
  | nil => exact le_refl _
  | snoc _ hpos ih => omega

theorem Archived.bounds {hdr : ArvHeader} (hmem : hdr ∈ arvs) :
    start <= hdr.fpageid ∧ hdr.lastPageid < next ∧ 0 <= hdr.arvNum ∧ hdr.arvNum < arvs.length := by
  induction h with
  | nil => cases hmem
  | snoc h hpos ih =>
    rw [length_append, length_singleton]
    rcases mem_append.mp hmem with hmem | hmem
    · have := ih hmem
      omega
    rw [mem_singleton] at hmem
    rw [hmem]
    have := h.start_le
    simp only [ArvHeader.lastPageid]
    omega

theorem Archived.ordered {a b : ArvHeader} (ha : a ∈ arvs) (hb : b ∈ arvs)
    (hlt : a.arvNum < b.arvNum) : a.lastPageid < b.fpageid := by
  induction h with
  | nil => cases ha
  | snoc h hpos ih =>
    rcases mem_append.mp hb with hb | hb
    · rcases mem_append.mp ha with ha | ha
      · exact ih ha hb
      rw [mem_singleton] at ha
      have := h.bounds hb
      rw [ha] at hlt
      dsimp only at hlt
      omega
    · rw [mem_singleton] at hb
      rw [hb] at hlt ⊢
      rcases mem_append.mp ha with ha | ha
      · exact (h.bounds ha).2.1
      · rw [mem_singleton] at ha
        rw [ha] at hlt
        exact absurd hlt (lt_irrefl _)

end

end

section

variable {nxarvNum : Int} {view : ArchiveView} {arvs : List ArvHeader}

/-- The header at hand is that of the archive with the number at hand. -/
def Search.Sees (s : Search) (arvs : List ArvHeader) : Prop :=
  forall hdr, s.arvHdr = some hdr -> hdr ∈ arvs ∧ hdr.arvNum = s.arvNum

variable {arvNum : Int} {hdr : ArvHeader}

theorem ArchiveView.Sees.mountAvailable (hview : view.Sees arvs)
    (h : LogPage.mountAvailable nxarvNum view arvNum = .header hdr) :
    hdr ∈ arvs ∧ hdr.arvNum = arvNum := by
  rw [LogPage.mountAvailable] at h
  split_ifs at h
  exact hview.mount _ _ h

open Search

theorem Search.sees_start (hview : view.Sees arvs) : (start nxarvNum view).Sees arvs := by
  rw [start]
  split
  · rename_i hdr hcached
    rintro _ ⟨⟩
    exact ⟨hview.cached hdr hcached, rfl⟩
  intro hdr hhdr
  split at hhdr
  · rename_i found hfound
    cases hhdr
    exact hview.mountAvailable hfound
  · cases hhdr

variable {pageid : Int} {s : Search}

theorem Search.sees_next (hview : view.Sees arvs) {t : Search}
    (h : s.next nxarvNum view pageid = .again t) : t.Sees arvs := by
  rw [next] at h
  split at h
  · cases h
  rw [mount] at h
  split at h
  · cases h
  · cases h
    intro hdr hhdr
    cases hhdr
  rename_i found hfound
  cases h
  rintro _ ⟨⟩
  exact hview.mountAvailable hfound

theorem Search.sees_round (hview : view.Sees arvs) {t : Search}
    (h : s.round nxarvNum view pageid = .again t) : t.Sees arvs := by
  rw [round] at h
  split at h
  · split_ifs at h
    exact sees_next hview h
  · exact sees_next hview h

theorem Search.next_ne_found (s : Search) : s.next nxarvNum view pageid ≠ .found arvNum hdr := by
  intro h
  rw [next] at h
  split at h
  · cases h
  · rw [mount] at h
    split at h <;> cases h

theorem Search.round_found (hs : s.Sees arvs)
    (h : s.round nxarvNum view pageid = .found arvNum hdr) :
    hdr ∈ arvs ∧ hdr.arvNum = arvNum ∧ hdr.holds pageid := by
  rw [round] at h
  split at h
  · rename_i hdr' hhdr
    split_ifs at h with hholds
    · cases h
      exact ⟨(hs hdr hhdr).1, (hs hdr hhdr).2, hholds⟩
    · exact absurd h (next_ne_found s)
  · exact absurd h (next_ne_found s)

variable {found : Int × ArvHeader}

theorem fetchLoop_sound (hview : view.Sees arvs) {fuel : Nat} (hs : s.Sees arvs)
    (h : fetchLoop nxarvNum view pageid fuel s = some found) :
    found.2 ∈ arvs ∧ found.2.arvNum = found.1 ∧ found.2.holds pageid := by
  induction fuel generalizing s with
  | zero => cases h
  | succ fuel ih =>
    rw [fetchLoop] at h
    split at h
    · rename_i hround
      cases h
      exact round_found hs hround
    · cases h
    · rename_i hround
      exact ih (sees_round hview hround) h

theorem fetchFromArchive_sound (hview : view.Sees arvs)
    (h : fetchFromArchive nxarvNum view pageid = some found) :
    found.2 ∈ arvs ∧ found.2.arvNum = found.1 ∧ found.2.holds pageid := by
  rw [fetchFromArchive] at h
  split_ifs at h
  exact fetchLoop_sound hview (sees_start hview) h

theorem getArchiveNumber_sound {start next : Int} (harvs : Archived start arvs next)
    (hview : view.Sees arvs) (h : getArchiveNumber nxarvNum view pageid ≠ -1) :
    exists hdr, hdr ∈ arvs ∧ hdr.arvNum = getArchiveNumber nxarvNum view pageid ∧
      hdr.holds pageid := by
  rw [getArchiveNumber] at h ⊢
  split at h
  · exact absurd rfl h
  rename_i found hfetch
  obtain ⟨hmem, hnum, hholds⟩ := fetchFromArchive_sound hview hfetch
  have hbounds := harvs.bounds hmem
  rw [if_neg (by omega)]
  exact ⟨found.2, hmem, hnum, hholds⟩

end

end Rye.Transaction.LogPage
