import Yunogram.Iv.Unicode
import Yunogram.Machinery.DotSegments

/-!
# Iv/LocalLinks — where a link of a Markdown document leads

`ClassifiedLink` of `iv_markdown_prepare_links.cpp` reads the target of a link: an anchor of the
document, an address with a scheme, or a file beside the document.

Paths are those of a Unix file system, where the native separator is the slash.  A document is a
file of that system, and a path that begins with `:/` is a resource. -/

open Machinery

namespace Yunogram.Iv.Markdown

/-- `QUrl(target).path(QUrl::FullyDecoded)` and `UrlClickHandler::EncodeForOpening`. -/
structure Urls where
  path : QString → QString
  encodeForOpening : QString → QString

/-! ## Paths -/

/-- The parts of a path between the slashes. -/
def segments (path : QString) : List QString := path.splitOn slash

/-- The segments with slashes between them. -/
def slashed (parts : List QString) : QString := [slash].intercalate parts

/-- A segment that leads nowhere: an empty one, or a dot. -/
def leadsNowhere (segment : QString) : Bool := segment == [] || segment == ascii "."

/-- Two dots. -/
def up : QString := ascii ".."

/-- The file system: the current directory, and whether `QDir::cleanPath` keeps steps up from the
root. -/
structure FileSystem where
  currentPath : QString
  keepsAboveRoot : Bool
  absolute : startsWith currentPath [slash] = true

/-- `QDir::cleanPath`. -/
def cleanPath (fs : FileSystem) (path : QString) : QString :=
  if path = [] then
    []
  else if startsWith path [slash] then
    slash :: slashed (Dots.settled leadsNowhere up fs.keepsAboveRoot (segments path))
  else
    match Dots.settled leadsNowhere up true (segments path) with
    | [] => ascii "."
    | parts => slashed parts

/-- `QDir::fromNativeSeparators`, where the native separator is the slash. -/
def fromNativeSeparators (path : QString) : QString := path

/-- `QFileSystemEntry::path`: what is before the last slash. -/
def directoryPath (filePath : QString) : QString :=
  let parts := (segments filePath).dropLast
  if parts = [] then
    ascii "."
  else if slashed parts = [] then
    [slash]
  else
    slashed parts

/-- The path from the root, `result` of `QFileSystemEngine::absoluteName`. -/
def fullName (fs : FileSystem) (path : QString) : QString :=
  if startsWith path [slash] then
    path
  else if path = ascii "." then
    fs.currentPath
  else if fs.currentPath.getLast? = some slash then
    fs.currentPath ++ path
  else
    fs.currentPath ++ slash :: path

/-- `QFileSystemEngine::absoluteName`.  A slash at the end stays there. -/
def absoluteName (fs : FileSystem) (path : QString) : QString :=
  let result := fullName fs path
  if result = [slash] then
    result
  else
    cleanPath fs result ++ (if result.getLast? = some slash then [slash] else [])

/-- `QFileInfo(path).absolutePath()`. -/
def absolutePath (fs : FileSystem) (path : QString) : QString :=
  directoryPath (absoluteName fs path)

/-- `QDir(directory).absoluteFilePath(fileName)`, of an absolute directory. -/
def absoluteFilePath (directory fileName : QString) : QString :=
  if startsWith fileName [slash] || startsWith fileName (ascii ":/") then
    fileName
  else if directory.getLast? = some slash then
    directory ++ fileName
  else
    directory ++ slash :: fileName

/-! ## Links -/

/-- `PreparedLinkKind`. -/
inductive PreparedLinkKind
  | external | instantViewPage | anchor | footnote | footnoteBacklink | localFile
  | rejectedRelative | toggleDetails | toggleBlockquote | richPageButton
  deriving DecidableEq

/-- `EntityLinkShown`. -/
inductive EntityLinkShown
  | full | partially
  deriving DecidableEq

/-- `PreparedLink`. -/
structure PreparedLink where
  index : UInt16 := 0
  kind : PreparedLinkKind := .external
  target : QString := []
  fragment : QString := []
  copyText : QString := []
  entityType : EntityType := .invalid
  shown : EntityLinkShown := .full
  webpageId : UInt64 := 0
  deriving DecidableEq

/-- What `ClassifiedLink` reads of a `PrepareRequest`. -/
structure PrepareRequest where
  sourcePath : QString

/-- What `ClassifiedLink` reads of a `PrepareState`. -/
structure PrepareState where
  request : Option PrepareRequest

section

variable (lib : Library) (unicode : Unicode) (urls : Urls) (fs : FileSystem)

/-- `HasUrlScheme`. -/
def hasUrlScheme (target : QString) : Bool :=
  match target, target.idxOf? (unit ':') with
  | [], _ => false
  | _ :: _, none => false
  | _ :: _, some 0 => false
  | first :: _, some colon =>
    let found := [slash, unit '?', unit '#'].filterMap fun c => target.idxOf? c
    let limit := found.foldl min target.length
    if limit ≤ colon then
      false
    else if !unicode.isLetter first then
      false
    else
      ((target.take colon).drop 1).all fun ch =>
        unicode.isLetterOrNumber ch || ch == unit '+' || ch == unit '-' || ch == unit '.'

/-- `LooksLikeWindowsDrivePath`. -/
def looksLikeWindowsDrivePath (target : QString) : Bool :=
  match target with
  | first :: second :: _ => unicode.isLetter first && second == unit ':'
  | _ => false

/-- `LooksLikeFileUrl`. -/
def looksLikeFileUrl (target : QString) : Bool :=
  decide (5 ≤ target.length) && unicode.equalIgnoringCase (target.take 5) (ascii "file:")

/-- `LooksLikeFilesystemTarget`. -/
def looksLikeFilesystemTarget (target : QString) : Bool :=
  startsWith target (ascii "/")
    || startsWith target (ascii "\\")
    || startsWith target (ascii "//")
    || startsWith target (ascii "\\\\")
    || looksLikeWindowsDrivePath unicode target
    || looksLikeFileUrl unicode target

/-- `ComparablePath`. -/
def comparablePath (path : QString) : QString :=
  unicode.toLower (fromNativeSeparators (cleanPath fs path))

/-- `IsContainedPath`. -/
def isContainedPath (baseDirectory resolvedPath : QString) : Bool :=
  let base := comparablePath unicode fs baseDirectory
  let resolved := comparablePath unicode fs resolvedPath
  resolved == base || startsWith resolved (base ++ ascii "/")

/-- `QString::endsWith` with `Qt::CaseInsensitive`. -/
def endsWithIgnoringCase (text suffix : QString) : Bool :=
  decide (suffix.length ≤ text.length)
    && unicode.equalIgnoringCase (text.drop (text.length - suffix.length)) suffix

/-- `LooksLikeMarkdownFile`. -/
def looksLikeMarkdownFile (fileName mimeType : QString) : Bool :=
  if !([ascii ".md", ascii ".markdown"].any fun suffix =>
      endsWithIgnoringCase unicode fileName suffix) then
    false
  else if mimeType = [] then
    true
  else
    let normalized := unicode.toLower (unicode.trimmed mimeType)
    [ascii "text/markdown", ascii "text/x-markdown", ascii "text/plain"].any (normalized == ·)

/-- `NormalizeMailtoTarget`. -/
def normalizeMailtoTarget (target : QString) : QString :=
  let parsed := urls.path target
  let result :=
    if parsed = [] then
      let after := match target.idxOf? (unit ':') with
        | none => target
        | some colon => target.drop (colon + 1)
      lib.fromUtf8 (Percent.decode (lib.toUtf8 (untilFirst (unit '?') after)))
    else
      parsed
  unicode.trimmed (result.dropWhile (· == slash))

/-- `NormalizePreparedUrlLink`. -/
def normalizePreparedUrlLink (link : PreparedLink) (target : QString) : PreparedLink :=
  let mailto := ascii "mailto:"
  if mailto.length ≤ target.length
      && unicode.equalIgnoringCase (target.take mailto.length) mailto then
    let address := normalizeMailtoTarget lib unicode urls target
    { link with
      fragment := []
      target := address
      copyText := address
      entityType := .email
      shown := .full }
  else
    let address := urls.encodeForOpening target
    { link with
      fragment := []
      target := address
      copyText := address
      entityType := .url
      shown := .full }

/-- `NormalizeFragmentId`. -/
def normalizeFragmentId (fragment : QString) : QString :=
  let decoded := lib.fromUtf8 (Percent.decode (lib.toUtf8 fragment))
  (unicode.toLower (unicode.trimmed decoded)).dropWhile (· == unit '#')

/-- `ClassifiedLink`. -/
def classifiedLink (index : UInt16) (target : QString) (state : Option PrepareState) :
    PreparedLink :=
  let result : PreparedLink := { index }
  if startsWith target [unit '#'] then
    { result with
      kind := .anchor
      target := normalizeFragmentId lib unicode (target.drop 1) }
  else if looksLikeFilesystemTarget unicode target then
    { result with kind := .rejectedRelative }
  else if hasUrlScheme unicode target then
    normalizePreparedUrlLink lib unicode urls { result with kind := .external } target
  else
    let fragment := match target.idxOf? (unit '#') with
      | none => []
      | some fragmentIndex => normalizeFragmentId lib unicode (target.drop (fragmentIndex + 1))
    let target := untilFirst (unit '#') target
    let result := { result with fragment, target }
    if target = [] then
      { result with kind := .anchor, target := result.fragment, fragment := [] }
    else
      match state.bind (·.request) with
      | none => { result with kind := .rejectedRelative }
      | some request =>
        if request.sourcePath = [] then
          { result with kind := .rejectedRelative }
        else if target.contains (unit '?') then
          { result with kind := .rejectedRelative }
        else
          let baseDirectory := absolutePath fs request.sourcePath
          if baseDirectory = [] then
            { result with kind := .rejectedRelative }
          else
            let resolved := absoluteFilePath baseDirectory target
            let cleanedResolved := cleanPath fs resolved
            if !isContainedPath unicode fs baseDirectory cleanedResolved
                || !looksLikeMarkdownFile unicode cleanedResolved [] then
              { result with kind := .rejectedRelative }
            else
              { result with kind := .localFile, target := cleanedResolved }

end

end Yunogram.Iv.Markdown
