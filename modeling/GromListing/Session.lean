import GromListing.CommandLine.Request
import GromListing.Image.Load

/-!
# Sessions

A run of the program, from the content of the file to the text that it prints. Notices come before
the lines they are about; a fault ends the run and is told twice, with its address on standard
output and under a heading on standard error.
-/

set_option autoImplicit false

namespace GromListing

namespace Session

open CommandLine (Request Settings)

structure Output where
  exitCode : UInt32
  stdout : String
  stderr : String
  deriving DecidableEq

/-- Each line with a line feed. -/
def printed (lines : List String) : String := lines.foldl (fun text line => text ++ line ++ "\n") ""

/-- The lines of the listing, with the notices of loading and listing. -/
def listing (settings : Settings) (content : Except FileFault (List UInt8)) :
    Logged (List Listing.Line) := do
  let image ← Image.load settings.file settings.origin content
  Logged.note (.loaded image.bytes.length settings.file image.origin image.last)
  Listing.page image settings.range

/-- Lists the file of the settings, which has the given content. -/
def list (settings : Settings) (content : Except FileFault (List UInt8)) : Output :=
  let log := listing settings content
  let notices := (log.notices.filter fun n => settings.verbose || !n.isDetail).map Notice.text
  match log.result with
  | .ok lines =>
    let summary := Notice.listed lines.length settings.file
    ⟨0, printed (notices ++ lines.map (·.render settings.showBytes) ++ [summary.text]), ""⟩
  | .error fault =>
    ⟨1, printed (notices ++ [fault.report.display]), "Error: " ++ fault.report.debug ++ "\n"⟩

def usage : String :=
  "usage: [--origin ADDR] [-s ADDR] [-e ADDR] [-n COUNT] [-b] [-v] FILE"

/-- Answers a request. The content of a file is asked for only when the request names one. -/
def answer {m : Type → Type} [Monad m] (read : String → m (Except FileFault (List UInt8)))
    (request : Request) : m Output :=
  match request with
  | .list settings => return list settings (← read settings.file)
  | .help => return ⟨0, printed [usage], ""⟩
  | .version => return ⟨0, printed ["0.1.0"], ""⟩
  | .rejected => return ⟨2, "", printed [usage]⟩

end Session

end GromListing
