import LineLayout.Command.Listing
import LineLayout.Command.Options
import LineLayout.Command.Render
import LineLayout.Command.Usage

/-!
# Requests on the command line

What the program does is decided by its arguments, up to the content of one script. A request
either has its answer at once, or says which script to read and what to do with it.
-/

namespace LineLayout

/-- What the program leaves behind: its exit code and what it printed. -/
structure Report where
  code : Nat := 0
  stdout : String := ""
  stderr : String := ""
deriving DecidableEq

/-- The report on a command that fails. -/
def Report.ofError (error : CommandError) : Report :=
  { code := 1, stderr := Usage.lines ["error: " ++ error.message] }

/-! ## Jobs -/

/-- What to do with a script. -/
inductive Job where
  | render (config : Config)
  | list
deriving DecidableEq

namespace Job

/-- Does the job with what reading the script gave. -/
def perform (job : Job) (path : String) (content : Except ReadFailure String) :
    Except CommandError String :=
  match content with
  | .error failure => .error (.unreadable path failure)
  | .ok source =>
    match job with
    | render config => renderSource path source config
    | list => listSource path source

/-- What is printed for a job that is done; rendered text gets a line of its own. -/
def print (job : Job) (text : String) : String :=
  match job with
  | render _ => Usage.lines [text]
  | list => text

/-- The report on a job, from what reading the script gave. -/
def report (job : Job) (path : String) (content : Except ReadFailure String) : Report :=
  match job.perform path content with
  | .ok text => { stdout := job.print text }
  | .error error => .ofError error

end Job

/-! ## Requests -/

/-- The path that stands for standard input. -/
def stdinPath : String :=
  "-"

/-- What is asked of the program: what it can answer at once, or a job that needs a script. -/
inductive Request where
  | answer (report : Report)
  | script (path : String) (job : Job)
deriving DecidableEq

namespace Request

/-- The request that the arguments of the render command make. -/
def ofRenderArgs (args : List String) : Request :=
  match RenderOptions.parse args with
  | .ok options => script options.path (.render options.config)
  | .error error => answer (.ofError error)

/-- The answer to a command that there is not: the overview, and the word on the error stream. -/
def ofUnknown (command : String) : Request :=
  answer
    { code := 1
      stdout := Usage.overview
      stderr := Usage.lines ["Unknown command: " ++ command, ""] }

/-- The request that the arguments of the program make. -/
def ofArgs : List String → Request
  | [] => answer { stdout := Usage.overview }
  | ["render"] => answer { code := 1, stderr := Usage.render }
  | "render" :: args => ofRenderArgs args
  | ["tokens"] => answer { code := 1, stderr := Usage.tokens }
  | "tokens" :: path :: _ => script path .list
  | command :: _ =>
    if command ∈ ["help", "--help", "-h"] then answer { stdout := Usage.overview }
    else if command ∈ ["version", "--version", "-V"] then answer { stdout := Usage.version }
    else ofUnknown command

end Request

end LineLayout
