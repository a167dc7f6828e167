import VideoPipeline.Analyzer.Paths

/-!
# What the answer to a path discloses

`/analyze` takes its path from an untrusted body, and `video_analyzer/api/errors.py` never echoes
one, lest an answer confirm which paths exist outside the root. The answer depends on the links and
on what is under the root; what else there is cannot be told from it.
-/

namespace VideoPipeline

namespace Os

variable {os os' : Os} {rawPath : String} {videoRoot p : PurePath} {root path : List FileName}
  {call : SystemCall} {e : Raised}

namespace SameUnder

end SameUnder

end Os

end VideoPipeline
