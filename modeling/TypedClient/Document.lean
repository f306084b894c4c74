import TypedClient.Json.Break
import TypedClient.Json.Reader
import TypedClient.Settings.Basic
import TypedClient.Workspace
import TypedClient.Yaml.Reader

namespace TypedClient

def reasonPhrases : List (Nat × String) :=
  [(100, "Continue"), (101, "Switching Protocols"), (102, "Processing"), (103, "Early Hints"),
    (300, "Multiple Choices"), (301, "Moved Permanently"), (302, "Found"), (303, "See Other"),
    (304, "Not Modified"), (305, "Use Proxy"), (307, "Temporary Redirect"),
    (308, "Permanent Redirect"), (400, "Bad Request"), (401, "Unauthorized"),
    (402, "Payment Required"), (403, "Forbidden"), (404, "Not Found"),
    (405, "Method Not Allowed"), (406, "Not Acceptable"),
    (407, "Proxy Authentication Required"), (408, "Request Timeout"), (409, "Conflict"),
    (410, "Gone"), (411, "Length Required"), (412, "Precondition Failed"),
    (413, "Request Entity Too Large"), (414, "Request-URI Too Long"),
    (415, "Unsupported Media Type"), (416, "Requested Range Not Satisfiable"),
    (417, "Expectation Failed"), (418, "I'm a teapot"), (421, "Misdirected Request"),
    (422, "Unprocessable Entity"), (423, "Locked"), (424, "Failed Dependency"),
    (425, "Too Early"), (426, "Upgrade Required"), (428, "Precondition Required"),
    (429, "Too Many Requests"), (431, "Request Header Fields Too Large"),
    (451, "Unavailable For Legal Reasons"), (500, "Internal Server Error"),
    (501, "Not Implemented"), (502, "Bad Gateway"), (503, "Service Unavailable"),
    (504, "Gateway Timeout"), (505, "HTTP Version Not Supported"),
    (506, "Variant Also Negotiates"), (507, "Insufficient Storage"), (508, "Loop Detected"),
    (510, "Not Extended"), (511, "Network Authentication Required")]

/-- A mark of byte order in front of a body does not count. -/
def dropMark (body : String) : String :=
  match body.toList with
  | '\ufeff' :: rest => String.ofList rest
  | _ => body

def documentOfAnswer (url : String) : WebAnswer → Except Error Value
  | .failed text => .error (.fetch url none (.failed text))
  | .reply status body =>
    if status < 200 || 300 ≤ status then
      .error (.fetch url (some status) (.refused ((reasonPhrases.lookup status).getD "")))
    else
      match Json.read (dropMark body) with
      | none => .error (.fetch url (some status) .unreadable)
      | some (.object entries) => .ok (.object entries)
      | some _ => .error (.fetch url (some status) .notAnObject)

/-- An address that nobody answers at refuses the connection. -/
def fetchDocument (url : String) : Work Value := do
  modifyThe Workspace fun workspace => { workspace with requests := workspace.requests ++ [url] }
  let answer := ((← getThe Workspace).web.lookup url).getD (.failed "connection refused")
  liftExcept (documentOfAnswer url answer)

def isYamlPath (path : String) : Bool := Path.endsWith ".yaml" path || Path.endsWith ".yml" path

def yamlError (path : String) : Yaml.Problem → Error
  | .fault fault => .unreadableScalar fault
  | problem => .document path (.unreadable ((problem.report path).drop 1))

def valueOfContent (path : String) : Content → Except Error Value
  | .binary _ => .error (.document path (.unreadable []))
  | .text s =>
    let text := String.ofList (Text.unifyBreaks s.toList)
    if isYamlPath path then (Yaml.read text).mapError (yamlError path)
    else
      match Json.read text with
      | some value => .ok value
      | none => .error (.document path (.unreadable []))

def documentOfContent (path : String) (content : Content) : Except Error Value := do
  match ← valueOfContent path content with
  | .object entries => return .object entries
  | _ => throw (.document path .notAnObject)

def readDocument (path : String) : Work Value := do
  match ← Work.fileAt? path with
  | none => throw (.document path .noFile)
  | some (_, content) => liftExcept (documentOfContent path content)

def isWebAddress (place : String) : Bool :=
  ["http://", "https://"].any fun start => start.toList.isPrefixOf place.toList

def loadDocument : DocumentSource → Work Value
  | .program document => pure document
  | .place (.text place) => if isWebAddress place then fetchDocument place else readDocument place
  | .place _ => throw .notAText

/-- Saves a document; of one that has no text, what stands in front of the fault is saved. -/
def saveDocument (document : Value) (path : String) : Work Unit := do
  match Json.breakOf document with
  | some broken =>
    Work.saveFile path broken.text
    throw (.unwritable broken.fault)
  | none => Work.saveFile path (Json.pretty 0 document)

def downloadDocument (url : String) (path : Option String) : Work Value := do
  let document ← fetchDocument url
  match path.filter (· != "") with
  | some path => saveDocument document path
  | none => pure ()
  return document

/-- The source as seen from the directory of the settings; none if no source is set. -/
def Settings.sourceInPlace? (settings : Settings) : Except Error (Option DocumentSource) :=
  match settings.source with
  | .program document => .ok (some (.program document))
  | .place value =>
    if !value.isTrue then .ok none
    else
      match value with
      | .text place =>
        if isWebAddress place then .ok (some settings.source)
        else .ok (some (.place (.text (Path.join settings.directory place))))
      | _ => .error .notAText

def updateDocument (settings : Settings) : Work Value := do
  match ← liftExcept settings.sourceInPlace? with
  | none => throw (.document (← liftExcept settings.cachePath) .noInput)
  | some source =>
    let document ← loadDocument source
    saveDocument document (← liftExcept settings.cachePath)
    return document

end TypedClient
