import MemberSynthesis.Generation
import MemberSynthesis.Text.Position
import MemberSynthesis.Intake.Schema
import MemberSynthesis.Intake.Member
import MemberSynthesis.Intake.ValueKind
import MemberSynthesis.Proofs.Text.Margin
import MemberSynthesis.Proofs.Source.Passing
import MemberSynthesis.Proofs.Source.Blame
import MemberSynthesis.Proofs.Source.Cutting
import MemberSynthesis.Proofs.Source.Content
import MemberSynthesis.Proofs.Source.Faults
import MemberSynthesis.Proofs.Source.Offsets
import MemberSynthesis.Proofs.Source.Writing
import MemberSynthesis.Proofs.Source.Listing
import MemberSynthesis.Proofs.Source.UnicodeEscape
import MemberSynthesis.Proofs.Source.Preceding
import MemberSynthesis.Proofs.Directive.Precedence
import MemberSynthesis.Proofs.Directive.Spelling
import MemberSynthesis.Proofs.Directive.Attachment
import MemberSynthesis.Proofs.Schema.Writing
import MemberSynthesis.Proofs.Schema.Statements
import MemberSynthesis.Proofs.Schema.Invariants
import MemberSynthesis.Proofs.Member.Coding
import MemberSynthesis.Proofs.Member.Parameters
import MemberSynthesis.Proofs.Member.Determination
import MemberSynthesis.Proofs.Member.Capture
import MemberSynthesis.Proofs.Member.Layout
import MemberSynthesis.Proofs.Source.Searches
import MemberSynthesis.Proofs.Text.Position
import MemberSynthesis.Proofs.Source.Splitting
import MemberSynthesis.Proofs.Source.InPlace
import MemberSynthesis.Proofs.Source.InPlaceAgreement
import MemberSynthesis.Proofs.Source.Progress
