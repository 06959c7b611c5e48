import Glance.Proofs.Folder
import Glance.Proofs.Text.Utf8
import Glance.Proofs.Viewer.Opening

/-!
# What is open is within the limits

Whatever is open was found by one request of the run, and nothing but its language has changed since
(`content_run`). Where all files come from disks, whatever these hold at the time, they were
therefore measured when they were opened: by hand, by path, as a neighbour or as a recent file. How
many pixels an image has is what a reader of images tells, which may be any.
-/

namespace Glance

/-! ## Where files come from -/

/-- The content is what a file gave, its language apart. -/
inductive Content.From : Content → OpenedFile → Prop
  | text {path : String} {chars : List Char} {lang : Language} {token : Option String} :
    From (.text path ⟨chars⟩ lang) (.text path chars token)
  | image {path : String} {image : ImageSource} {token : Option String} :
    From (.image path image) (.image path image token)

/-- The resolver opens files of the disk within the limits. How it lists folders does not matter. -/
structure Disk.Serves (d : Disk) (reader : ImageReader) (limits : FileLimits) (r : Resolver) :
    Prop where
  resolve_eq : ∀ p, r.resolve p = d.resolveFile limits p reader
  pick_eq : ∀ file ∈ r.pick, ∃ p, file = d.resolveFile limits p reader

namespace Viewer

variable {σ : Type} {v : Viewer σ} {request : Request} {file : OpenedFile} {content : Content}
  {limits : FileLimits} {reader : ImageReader} {d : Disk}

/-- The resolver that a request to open a file asks. -/
def Request.resolver? : Request → Option Resolver
  | .openPicked r | .openPath r _ | .openRecent r _ | .openNeighbor r _ => some r
  | _ => none

theorem Finds.served {r : Resolver} (finds : Finds v request file)
    (asks : request.resolver? = some r) (serves : d.Serves reader limits r) :
    ∃ p, file = d.resolveFile limits p reader := by
  cases finds with
  | picked pick =>
    obtain rfl := Option.some.inj asks
    exact serves.pick_eq file pick
  | atPath | recent | neighbor =>
    obtain rfl := Option.some.inj asks
    exact ⟨_, serves.resolve_eq _⟩

/-! ## One request -/

theorem content_showFile [Store σ] (shown : (v.showFile file).2.content = some content) :
    v.content = some content ∨ content.From file := by
  cases file with
  | text path chars token =>
    obtain rfl := Option.some.inj shown
    exact .inr .text
  | image path image token =>
    obtain rfl := Option.some.inj shown
    exact .inr .image
  | failed path message => exact .inl shown

/-- What is open after a request was open before it, perhaps in another language, or was found by
it. -/
theorem content_respond [Store σ] (shown : (v.respond request).2.content = some content) :
    (∃ old, v.content = some old ∧ ∀ file, old.From file → content.From file) ∨
      ∃ file, Finds v request file ∧ content.From file := by
  by_cases opening : request.IsOpening
  · obtain ⟨answer, eq, ⟨file, finds, rfl⟩ | ⟨-, same, -⟩⟩ := respond_opening v opening <;>
      rw [eq] at shown
    · rcases content_showFile shown with old | found
      · exact .inl ⟨content, old, fun _ => id⟩
      · exact .inr ⟨file, finds, found⟩
    · rw [same] at shown
      exact .inl ⟨content, shown, fun _ => id⟩
  left
  cases request with
  | close => cases shown
  | setLanguage lang =>
    change (v.setLanguage lang).2.content = some content at shown
    obtain same | ⟨path, doc, lang', old, eq⟩ := setLanguage_cases v lang
    · rw [same] at shown
      exact ⟨content, shown, fun _ => id⟩
    · rw [eq] at shown
      obtain rfl := Option.some.inj shown
      refine ⟨_, old, fun file came => ?_⟩
      cases came
      exact .text
  | setQuery query =>
    change (v.setQuery query).content = some content at shown
    unfold setQuery at shown
    split_ifs at shown <;> exact ⟨content, shown, fun _ => id⟩
  | copyPath clipboard =>
    obtain ⟨result, -, same | eq⟩ := respond_copyPath_cases v clipboard
    · rw [same] at shown
      exact ⟨content, shown, fun _ => id⟩
    · rw [eq] at shown
      exact ⟨content, shown, fun _ => id⟩
  | adjust a =>
    change (v.adjust a).content = some content at shown
    rw [adjust_eq_prefer] at shown
    exact ⟨content, shown, fun _ => id⟩
  | openPicked | openPath | openRecent | openNeighbor => exact (opening trivial).elim
  | _ => exact ⟨content, shown, fun _ => id⟩

/-! ## Runs -/

/-- What is open after a run was found by one of its requests. -/
theorem content_run [Store σ] {store : σ} {config : Config} {requests : List Request}
    (shown : ((start store config).run requests).content = some content) :
    ∃ before request after file, requests = before ++ request :: after ∧
      Finds ((start store config).run before) request file ∧ content.From file := by
  induction requests using List.reverseRecOn generalizing content with
  | nil => cases shown
  | append_singleton requests request ih =>
    rw [run_concat] at shown
    rcases content_respond shown with ⟨old, shown, kept⟩ | ⟨file, finds, came⟩
    · obtain ⟨before, earlier, after, file, rfl, finds, came⟩ := ih shown
      exact ⟨before, earlier, after ++ [request], file, by simp, finds, kept file came⟩
    · exact ⟨requests, request, [], file, rfl, finds, came⟩

/-! ## Limits -/

/-- Requests to open files are served by disks, each by the one that is there at its time. -/
def Served (reader : ImageReader) (limits : FileLimits) (requests : List Request) : Prop :=
  ∀ request ∈ requests, ∀ r ∈ request.resolver?, ∃ d : Disk, d.Serves reader limits r

/-- What is open came from a file that its disk gave within the limits. -/
theorem opens_of_content_run [Store σ] {store : σ} {config : Config} {requests : List Request}
    (served : Served reader limits requests)
    (shown : ((start store config).run requests).content = some content) :
    ∃ before request after r d p file, requests = before ++ request :: after ∧
      request.resolver? = some r ∧ Disk.Serves d reader limits r ∧
      Finds ((start store config).run before) request file ∧ Disk.Opens limits d p reader file ∧
      content.From file := by
  obtain ⟨before, request, after, file, eq, finds, came⟩ := content_run shown
  obtain ⟨r, asks⟩ : ∃ r, request.resolver? = some r := by
    cases finds <;> exact ⟨_, rfl⟩
  obtain ⟨d, serves⟩ := served request (by simp [eq]) r asks
  obtain ⟨p, rfl⟩ := finds.served asks serves
  refine ⟨before, request, after, r, d, p, _, eq, asks, serves, finds, ?_, came⟩
  rcases d.resolveFile_cases limits p reader with opens | ⟨cause, failed⟩
  · exact opens
  · rw [failed] at came
    cases came

/-- A file that can be opened is opened by every request that comes upon it. -/
theorem respond_of_opens [Store σ] {p : Path}
    (finds : Finds v request (d.resolveFile limits p reader))
    (opens : Disk.Opens limits d p reader file) (shows : file.content? = some content) :
    ∃ w, v.respond request = (.opening (.ok .opened), w) ∧ w.content = some content := by
  rw [Disk.resolveFile_eq_of_opens opens] at finds
  obtain ⟨outcome, content_eq⟩ := showFile_of_content? v shows
  have eq := respond_of_finds finds
  rw [outcome] at eq
  exact ⟨_, eq, content_eq⟩

/-- In every state of every run in which all files come from disks, with any reader of images: an
open image takes no more memory than is allowed, counted exactly; an open text came from a file that
was no larger than allowed when it was read, and has grown to three times its length at most; and a
file of that length that is no image can always be opened. -/
theorem open_within_limits [Store σ] (reader : ImageReader) (store : σ) (config : Config)
    (requests : List Request) (served : Served reader config.files requests) :
    let v := (start store config).run requests
    (∀ path image, v.content = some (.image path image) →
      config.files.maxTextureBytes < 2 ^ 64 - 1 →
      4 * image.size.width.toNat * image.size.height.toNat ≤ config.files.maxTextureBytes) ∧
    (∀ path doc lang, v.content = some (.text path doc lang) →
      doc.byteCount ≤ 3 * config.files.maxFileBytes ∧
      ∃ before request after r d bytes, requests = before ++ request :: after ∧
        request.resolver? = some r ∧ Disk.Serves d reader config.files r ∧
        Finds ((start store config).run before) request
          (d.resolveFile config.files ⟨path⟩ reader) ∧
        d.read ⟨path⟩ = .ok bytes ∧ bytes.length ≤ config.files.maxFileBytes ∧
        doc.text = Text.decodeLossy bytes) ∧
    (∀ request (d : Disk) p bytes, Finds v request (d.resolveFile config.files p reader) →
      d.read p = .ok bytes → bytes.length ≤ config.files.maxFileBytes →
      ImageFormat.ofPath? p = none →
      ∃ w, v.respond request = (.opening (.ok .opened), w) ∧
        w.content = some (.text p.text ⟨Text.decodeLossy bytes⟩ (.ofPath p))) := by
  intro v
  refine ⟨fun path image shown tells => ?_, fun path doc lang shown => ?_,
    fun request d p bytes finds read small noImage => ?_⟩
  · obtain ⟨_, _, _, _, d, p, file, -, -, -, -, opens, came⟩ := opens_of_content_run served shown
    cases came
    cases opens with
    | image _ _ _ _ fits => exact (PixelSize.fits_iff tells).mp fits
  · obtain ⟨before, request, after, r, d, p, file, eq, asks, serves, finds, opens, came⟩ :=
      opens_of_content_run served shown
    rw [← Disk.resolveFile_eq_of_opens opens] at finds
    cases came
    cases opens with
    | @text bytes read small noImage =>
      have grown : Document.utf8Length (Text.decodeLossy bytes) ≤ 3 * config.files.maxFileBytes :=
        (Text.utf8Length_decodeLossy_le bytes).trans (Nat.mul_le_mul_left 3 small)
      exact ⟨grown, before, request, after, r, d, bytes, eq, asks, serves, finds, read, small, rfl⟩
  · exact respond_of_opens finds (.text read small noImage) rfl

/-- A file as large as allowed without a byte of text in it, which is three times as large when it
is shown; and an image that takes exactly as much memory as is allowed. -/
theorem open_within_limits_exact :
    let d : Disk :=
      ⟨#[], [(#["a.txt"], .file (List.replicate 43 0xFF)), (#["b.gif"], .file ImageFormat.pixel)]⟩
    let config : Config := { Config.initial with files := ⟨43, 4⟩ }
    let requests : List Request :=
      [.openPath (d.resolver config.files) ⟨"a.txt"⟩, .openPath (d.resolver config.files) ⟨"b.gif"⟩]
    Served .headers config.files requests ∧
      (∃ doc lang, ((start MemoryStore.empty config).run (requests.take 1)).content =
        some (.text "a.txt" doc lang) ∧ doc.byteCount = 3 * 43 ∧ doc.byteCount ≤ 3 * 43) ∧
      ∃ image, ((start MemoryStore.empty config).run requests).content =
        some (.image "b.gif" image) ∧ image.size = ⟨1, 1⟩ ∧
        4 * image.size.width.toNat * image.size.height.toNat ≤ 4 := by
  intro d config requests
  have serves : d.Serves .headers config.files (d.resolver config.files) := ⟨fun _ => rfl, nofun⟩
  have served : Served .headers config.files requests := by
    intro request mem r asks
    obtain rfl | rfl : request = _ ∨ request = _ := by simpa [requests] using mem
    all_goals
      obtain rfl := Option.some.inj asks
      exact ⟨d, serves⟩
  have first : Served .headers config.files (requests.take 1) :=
    fun request mem => served request (List.mem_of_mem_take mem)
  have text : ((start MemoryStore.empty config).run (requests.take 1)).content =
      some (.text "a.txt" ⟨List.replicate 43 '\uFFFD'⟩ (.ofPath ⟨"a.txt"⟩)) := by
    decide +kernel
  have image : ((start MemoryStore.empty config).run requests).content =
      some (.image "b.gif" ⟨"file:///b.gif", ⟨1, 1⟩⟩) := by decide +kernel
  refine ⟨served, ⟨_, _, text, by decide +kernel, ?_⟩, _, image, rfl, ?_⟩
  · exact ((open_within_limits .headers MemoryStore.empty config _ first).2.1 _ _ _ text).1
  · exact (open_within_limits .headers MemoryStore.empty config requests served).1 _ _ image
      (by decide)

end Viewer

end Glance
