import LineShell.Invocation
import LineShell.Main
import LineShell.Programs.Standard
import LineShell.Proofs.Alias.Format
import LineShell.Proofs.Editor.Characters
import LineShell.Proofs.Editor.Halves
import LineShell.Proofs.Editor.InStep
import LineShell.Proofs.Editor.Resubmitting
import LineShell.Proofs.Editor.Sequences
import LineShell.Proofs.History.Positions
import LineShell.Proofs.History.SharedLog
import LineShell.Proofs.Line.Comments
import LineShell.Proofs.Line.Gluing
import LineShell.Proofs.Line.Phrases
import LineShell.Proofs.Line.Splitting
import LineShell.Proofs.Session.Ending
import LineShell.Proofs.Session.GoingBack
import LineShell.Proofs.Session.InOrder
import LineShell.Proofs.Session.InPlace
import LineShell.Proofs.Session.Leaving
import LineShell.Proofs.Session.LoggedFirst
import LineShell.Proofs.Session.Moving
import LineShell.Proofs.Session.OneLine
import LineShell.Proofs.Session.Unfinished
import LineShell.Proofs.Session.Variables
import LineShell.Proofs.Shell.Echoing
import LineShell.Proofs.Shell.InTurn
import LineShell.Proofs.Shell.Refusing
import LineShell.Proofs.Shell.Starting
import LineShell.Proofs.Wildcard.Listing
