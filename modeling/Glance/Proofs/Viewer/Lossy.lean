import Glance.Proofs.Text.Lossless
import Glance.Proofs.Viewer.Limits

/-!
# Replaced bytes are never hidden

A text that is open may differ from the bytes of its file only where bytes were no text, and the
status line then says so (`loss_never_silent`). The sign of loss is looked for in the decoded text;
that is enough because decoding replaces nothing without leaving one.
-/

namespace Glance.Viewer

variable {σ : Type} {v : Viewer σ} {bytes : List UInt8} {doc : Document} {lang : Language}
  {path : String}

/-- What a status line marks the text of a lossy document with. -/
def lossMark : List Char :=
  " - UTF-8 (lossy)".toList

/-- A document and the status line above it hide nothing of the bytes that the document was decoded
from. -/
structure Candid (bytes : List UInt8) (doc : Document) (status : String) : Prop where
  wellFormed : bytes.toByteArray.IsValidUTF8 → Text.utf8 doc.text = bytes
  unmarked : ¬ lossMark <:+ status.toList → Text.utf8 doc.text = bytes
  replaced : Text.utf8 doc.text ≠ bytes → doc.isLossy

theorem lossMark_suffix (limits : TextLimits) (path : String) (lossy : doc.isLossy) :
    lossMark <:+ (textStatus limits path doc).toList := by
  unfold textStatus
  rw [if_pos lossy, String.toList_append]
  exact List.suffix_append _ _

theorem isLossy_of_replaced (decoded : doc.text = Text.decodeLossy bytes)
    (replaced : Text.utf8 doc.text ≠ bytes) : doc.isLossy := by
  unfold Document.isLossy
  rw [List.contains_iff_mem]
  by_contra clean
  rw [decoded] at replaced clean
  exact replaced (Text.utf8_decodeLossy clean)

/-- The status line is candid wherever no notice stands in its place. -/
theorem candid_status (shown : v.content = some (.text path doc lang)) (silent : v.copied = false)
    (decoded : doc.text = Text.decodeLossy bytes) : Candid bytes doc v.status where
  wellFormed valid := by
    rw [decoded]
    exact Text.utf8_decodeLossy_iff.mpr valid
  unmarked unmarked := by
    by_contra replaced
    refine unmarked ?_
    unfold status
    rw [if_neg (by rw [silent]; decide), shown]
    exact lossMark_suffix _ _ (isLossy_of_replaced decoded replaced)
  replaced := isLossy_of_replaced decoded

/-- In every state of every run in which all files come from disks: a file within the limits that is
no image can be opened by any request that comes upon it, and its text and the status line are
candid; and so they are later on, whatever is asked of the viewer, as long as the text is open and
no notice is shown. -/
theorem loss_never_silent [Store σ] {reader : ImageReader} {limits : FileLimits} (store : σ)
    (config : Config) (requests : List Request) (served : Served reader limits requests) :
    let v := (start store config).run requests
    (∀ request (d : Disk) p bytes, Finds v request (d.resolveFile limits p reader) →
      d.read p = .ok bytes → bytes.length ≤ limits.maxFileBytes → ImageFormat.ofPath? p = none →
      ∃ w doc, v.respond request = (.opening (.ok .opened), w) ∧
        w.content = some (.text p.text doc (.ofPath p)) ∧ w.copied = false ∧
        Candid bytes doc w.status) ∧
    ∀ path doc lang, v.content = some (.text path doc lang) →
      ∃ before request after r d bytes, requests = before ++ request :: after ∧
        request.resolver? = some r ∧ Disk.Serves d reader limits r ∧
        Finds ((start store config).run before) request (d.resolveFile limits ⟨path⟩ reader) ∧
        d.read ⟨path⟩ = .ok bytes ∧ (v.copied = false → Candid bytes doc v.status) := by
  intro v
  refine ⟨fun request d p bytes finds read small noImage => ?_, fun path doc lang shown => ?_⟩
  · rw [Disk.resolveFile_eq_of_opens (.text read small noImage)] at finds
    have shows : (OpenedFile.text p.text (Text.decodeLossy bytes) none).content? =
        some (.text p.text ⟨Text.decodeLossy bytes⟩ (.ofPath p)) := rfl
    obtain ⟨entry, -, outcome, opened⟩ :=
      opened_showFile (proper_run store config requests) shows
    have eq := respond_of_finds finds
    rw [outcome] at eq
    exact ⟨_, _, eq, opened.content_eq, opened.copied_eq,
      candid_status opened.content_eq opened.copied_eq rfl⟩
  · obtain ⟨before, request, after, r, d, p, file, eq, asks, serves, finds, opens, came⟩ :=
      opens_of_content_run served shown
    rw [← Disk.resolveFile_eq_of_opens opens] at finds
    cases came
    cases opens with
    | text read small noImage =>
      exact ⟨before, request, after, r, d, _, eq, asks, serves, finds, read,
        fun silent => candid_status shown silent rfl⟩

/-- Overlong bytes next to a whole character: two signs of loss in the text, and the mark. -/
theorem loss_never_silent_overlong :
    let bytes : List UInt8 := [0xC0, 0xAF, 0xC3, 0xA9]
    let d : Disk := ⟨#[], [(#["a.txt"], .file bytes)]⟩
    let r := d.resolver Config.initial.files
    let requests : List Request := [.openPath r ⟨"a.txt"⟩]
    let v := (start MemoryStore.empty .initial).run requests
    Served .headers Config.initial.files requests ∧
      ∃ doc lang, v.content = some (.text "a.txt" doc lang) ∧
        doc.text = ['\uFFFD', '\uFFFD', 'é'] ∧ Candid bytes doc v.status ∧
        lossMark <:+ v.status.toList ∧
        ∃ d' read, Disk.Serves d' .headers Config.initial.files r ∧ d'.read ⟨"a.txt"⟩ = .ok read ∧
          Candid read doc v.status := by
  intro bytes d r requests v
  have serves : d.Serves .headers Config.initial.files r := ⟨fun _ => rfl, nofun⟩
  have served : Served .headers Config.initial.files requests := by
    intro request mem r' asks
    obtain rfl := List.mem_singleton.mp mem
    obtain rfl := Option.some.inj asks
    exact ⟨d, serves⟩
  have finds : Finds (start MemoryStore.empty .initial) (.openPath r ⟨"a.txt"⟩)
      (d.resolveFile Config.initial.files ⟨"a.txt"⟩) := .atPath _ _
  obtain ⟨w, doc, eq, shown, silent, candid⟩ :=
    (loss_never_silent MemoryStore.empty .initial [] nofun).1 _ d ⟨"a.txt"⟩ bytes finds
      rfl (by decide) (by decide +kernel)
  obtain rfl : v = w := congrArg Prod.snd eq
  have text : doc.text = ['\uFFFD', '\uFFFD', 'é'] := by
    have same : v.content =
        some (.text "a.txt" ⟨['\uFFFD', '\uFFFD', 'é']⟩ (.ofPath ⟨"a.txt"⟩)) := by decide +kernel
    rw [shown] at same
    cases same
    rfl
  refine ⟨served, doc, _, shown, text, candid, by decide +kernel, ?_⟩
  obtain ⟨_, request, _, r', d', read, split, asks, serves', -, reads, candid'⟩ :=
    (loss_never_silent MemoryStore.empty .initial requests served).2 _ _ _ shown
  have mem : request ∈ requests := by
    rw [split]
    exact List.mem_append_right _ (.head _)
  obtain rfl := List.mem_singleton.mp mem
  obtain rfl := Option.some.inj asks
  exact ⟨d', read, serves', reads, candid' silent⟩

end Glance.Viewer
